import Mathlib
import Swinx.Message.Motion

/-!
# Hooks and the delivery of a message

`CallWindowProcPriv` asks the keyboard or the mouse hooks and then the call-window hooks whether to
skip a message, calls the window procedure, tells the hooks of `WH_CALLWNDPROCRET` and gives the
result to the sender.  The answers are kept in one flag, and the last one is what counts.

A procedure is a finite tree here: what it does next depends on what `CallNextHookEx` gives and on
the messages of its thread, which it may change by whatever it does.  A hook may pass any handle on,
so a chain may be walked in circles, and the walk has a bound.  The hooks stay the same meanwhile.
A hook of another thread is what the call by a message does and leaves.

What `CallWindowProcPriv` does before it comes to the hooks is a parameter: it returns, or it goes
on with a flag and the parameters of the message.

* `decides_iff` — the hooks decide if and only if the message is settled.
* `exists_callWindowProcPriv` — a message is processed if hooks pass on their own handles.
* `keyboard_overruled` — what a keyboard hook answers is overruled by the call-window hooks.
-/

namespace Swinx

namespace HookDelivery

open Motion (getXLparam getYLparam makelparam)

/-! ### Messages and their senders -/

abbrev LRESULT := Int64

/-- What a message says. -/
structure Message where
  hwnd : ℕ
  message : UInt32
  wParam : UInt64
  lParam : Int64
  deriving DecidableEq

/-- A message of the queue, whose sender waits for a result. -/
structure Msg where
  fields : Message
  sender : ℕ
  deriving DecidableEq

/-- The messages of the thread, and the window. -/
structure State where
  /-- `m_msgPeek` -/
  msgPeek : Option Msg
  /-- `m_bMsgNeedFree` -/
  bMsgNeedFree : Bool
  /-- `m_msgStack`, its back first -/
  msgStack : List Msg
  bDestroyed : Bool
  deriving DecidableEq

/-- `BeforeProcMsg` -/
def State.beforeProcMsg (s : State) (m : Message) : State :=
  match s.msgPeek with
  | none => s
  | some q =>
    if s.bMsgNeedFree ∧ q.fields = m then
      { s with msgStack := q :: s.msgStack, msgPeek := none, bMsgNeedFree := false }
    else s

/-- `AfterProcMsg`, and the message that gets the result. -/
def State.afterProcMsg (s : State) (m : Message) : Option Msg × State :=
  match s.msgStack with
  | [] => (none, s)
  | q :: qs =>
    if s.bMsgNeedFree = false ∧ q.fields = m then (some q, { s with msgStack := qs }) else (none, s)

/-! ### Procedures -/

/-- `idHook` -/
inductive WH
  | msgFilter
  | keyboard
  | getMessage
  | callWndProc
  | sysMsgFilter
  | mouse
  | callWndProcRet
  deriving DecidableEq, Repr

/-- What a hook is told. -/
inductive Args
  | keyboard (wParam : UInt64) (lParam : Int64)
  | mouse (message : UInt32) (hwnd : ℕ) (x y : Int32) (wHitTestCode : UInt32)
  | callWndProc (m : Message)
  | callWndProcRet (m : Message) (lResult : LRESULT)
  deriving DecidableEq

/-- What a procedure does until it returns. -/
inductive Body
  | ret (result : LRESULT)
  | callNextHookEx (hhk : Option ℕ) (nCode : Int32) (args : Args) (k : LRESULT → Body)
  /-- Anything else. -/
  | act (f : State → State) (k : State → Body)

/-- The run of a procedure. -/
def Body.run (next : Option ℕ → Int32 → Args → State → Option (LRESULT × State)) :
    Body → State → Option (LRESULT × State)
  | ret result, s => some (result, s)
  | callNextHookEx hhk nCode args k, s =>
    (next hhk nCode args s).bind fun r => (k r.1).run next r.2
  | act f k, s => (k s).run next (f s)

/-! ### The chains -/

structure Hook where
  id : WH
  proc : Int32 → Args → Body
  /-- It is a hook of this thread, or of one that has a connection. -/
  connected : Bool

/-- `HookMgr` -/
structure HookMgr where
  hook : ℕ → Hook
  /-- `s_hooks` -/
  chain : WH → List ℕ

namespace HookMgr

variable (mgr : HookMgr)

/-- `get_first_hook` -/
def getFirstHook (id : WH) : Option ℕ := (mgr.chain id).head?

/-- `get_next_hook` -/
def getNextHook (hhk : Option ℕ) : Option ℕ :=
  hhk.bind fun h => (((mgr.chain (mgr.hook h).id).dropWhile (· ≠ h)).drop 1).head?

/-- `call_hook`, not deeper than `n` -/
def callHook : ℕ → Option ℕ → Int32 → Args → State → Option (LRESULT × State)
  | 0, _, _, _, _ => none
  | _ + 1, none, _, _, s => some (0, s)
  | n + 1, some h, nCode, args, s =>
    if (mgr.hook h).connected then
      ((mgr.hook h).proc nCode args).run (fun hhk => callHook n (mgr.getNextHook hhk)) s
    else callHook n (mgr.getNextHook (some h)) nCode args s

/-- `HC_ACTION` -/
def HC_ACTION : Int32 := 0

/-- `CallHook`, before its result becomes a `BOOL` -/
def callFirst (n : ℕ) (id : WH) (args : Args) (s : State) : Option (LRESULT × State) :=
  mgr.callHook n (mgr.getFirstHook id) HC_ACTION args s

/-- `CallNextHookEx` as a procedure calls it -/
def next (n : ℕ) (hhk : Option ℕ) : Int32 → Args → State → Option (LRESULT × State) :=
  mgr.callHook n (mgr.getNextHook hhk)

end HookMgr

/-- The conversion of a result to `BOOL`, which has 32 bits. -/
def toBOOL (r : LRESULT) : Bool := r.toInt32 ≠ 0

/-! ### The processing of a message -/

def WM_PAINT : UInt32 := 0x000F

def WM_NCPAINT : UInt32 := 0x0085

def WM_KEYFIRST : UInt32 := 0x0100

def WM_KEYLAST : UInt32 := 0x0109

def WM_MOUSEFIRST : UInt32 := 0x0200

def WM_MOUSEWHEEL : UInt32 := 0x020A

def WM_MOUSEHWHEEL : UInt32 := 0x020E

def WM_MOUSELAST : UInt32 := 0x020E

/-- What a window is to the function. -/
structure Window where
  /-- `dwStyle & WS_BORDER` -/
  border : Bool
  htCode : UInt32
  winproc : Message → Body
  /-- `invalid.hRgn` -/
  hRgn : UInt64

/-- What is done before the hooks. -/
inductive Prepared
  /-- The message is handled, or there is no window. -/
  | returns (ret : LRESULT)
  | continues (bSkipMsg : Bool) (wParam : UInt64) (lParam : Int64)
  deriving DecidableEq

/-- What is done for a message. -/
inductive Step
  /-- A call of `CallHook`, and its result. -/
  | hook (id : WH) (ret : LRESULT)
  | winproc (message : UInt32) (ret : LRESULT)
  /-- The sender gets the result. -/
  | delivered (msg : Msg) (res : LRESULT)
  deriving DecidableEq

structure Outcome where
  /-- The calls, in order. -/
  trace : List Step
  /-- When the hooks have been asked. -/
  due : State
  /-- When `AfterProcMsg` is called. -/
  reached : State
  /-- What the message returns. -/
  ret : LRESULT
  deriving DecidableEq

section Code

variable (n : ℕ) (mgr : HookMgr) (wnd : Window)

/-- The message that the window procedure gets, without the border. -/
def Window.inside (m : Message) : Message :=
  if wnd.border ∧ WM_MOUSEFIRST ≤ m.message ∧ m.message ≤ WM_MOUSELAST ∧
      m.message ≠ WM_MOUSEWHEEL ∧ m.message ≠ WM_MOUSEHWHEEL then
    { m with lParam := makelparam (getXLparam m.lParam - 1) (getYLparam m.lParam - 1) }
  else m

/-- `CallWindowObjProc`; a window that is destroyed has no procedure. -/
def callWindowObjProc (m : Message) (s : State) : Option (List Step × LRESULT × State) :=
  if s.bDestroyed then some ([], -1, s)
  else ((wnd.winproc m).run (mgr.next n) s).map fun r => ([.winproc m.message r.1], r.1, r.2)

/-- The keyboard or the mouse hooks, and `bSkipMsg`. -/
def callInputHook (m : Message) (s : State) : Option (List Step × Bool × State) :=
  if WM_KEYFIRST ≤ m.message ∧ m.message ≤ WM_KEYLAST then
    (mgr.callFirst n .keyboard (.keyboard m.wParam m.lParam) s).map fun r =>
      ([.hook .keyboard r.1], toBOOL r.1, r.2)
  else if WM_MOUSEFIRST ≤ m.message ∧ m.message ≤ WM_MOUSELAST then
    (mgr.callFirst n .mouse (.mouse m.message m.hwnd (getXLparam m.lParam) (getYLparam m.lParam)
      wnd.htCode) s).map fun r => ([.hook .mouse r.1], toBOOL r.1, r.2)
  else some ([], false, s)

/-- The window procedure, unless the message is skipped. -/
def callUnlessSkipped (bSkipMsg : Bool) (m : Message) (s : State) :
    Option (List Step × LRESULT × State) :=
  if bSkipMsg then some ([], 0, s) else callWindowObjProc n mgr wnd (wnd.inside m) s

/-- The frame is painted after the window. -/
def callNcPaint (m : Message) (s : State) : Option (List Step × LRESULT × State) :=
  if m.message = WM_PAINT then callWindowObjProc n mgr wnd ⟨m.hwnd, WM_NCPAINT, wnd.hRgn, 0⟩ s
  else some ([], 0, s)

/-- The end of `CallWindowProcPriv` -/
def finish (m : Message) (trace : List Step) (due s : State) (ret : LRESULT) : Outcome where
  trace := trace ++ ((s.afterProcMsg m).1.map (Step.delivered · ret)).toList
  due
  reached := s
  ret

/-- The part of `CallWindowProcPriv` that asks the hooks. -/
def askHooks (m : Message) (s : State) : Option Outcome := do
  let (input, _, s) ← callInputHook n mgr wnd m s
  -- the flag is written again
  let (r, s) ← mgr.callFirst n .callWndProc (.callWndProc m) s
  let (call, ret, s') ← callUnlessSkipped n mgr wnd (toBOOL r) m s
  let (r', s'') ← mgr.callFirst n .callWndProcRet (.callWndProcRet m ret) s'
  let (paint, _, s''') ← callNcPaint n mgr wnd m s''
  some (finish m (input ++ [.hook .callWndProc r] ++ call ++ [.hook .callWndProcRet r'] ++ paint)
    s s''' ret)

/-- `CallWindowProcPriv` up to `AfterProcMsg` -/
def callWindowProcPriv (prepared : Prepared) (m : Message) (s : State) : Option Outcome :=
  match prepared with
  | .returns ret => some ⟨[], s, s, ret⟩
  | .continues bSkipMsg wParam lParam =>
    let m := { m with wParam, lParam }
    let s := s.beforeProcMsg m
    if bSkipMsg then some (finish m [] s s 0) else askHooks n mgr wnd m s

end Code

/-- A hook was asked before the window procedure, and its answer was to skip. -/
def Asked (trace : List Step) : Prop := ∃ id r, .hook id r ∈ trace ∧ id ≠ .callWndProcRet ∧ r ≠ 0

/-- A call of the window procedure for a message. -/
def Step.isCall (m : Message) : Step → Bool
  | winproc message _ => message = m.message
  | hook .. => false
  | delivered .. => false

/-- How often the window procedure was called for the message. -/
def invocations (m : Message) (trace : List Step) : ℕ := trace.countP (Step.isCall m)

/-- The message that the thread has removed and now processes, whose sender waits. -/
def State.owed (s : State) (m : Message) : Option Msg :=
  s.msgPeek.filter fun q => s.bMsgNeedFree ∧ q.fields = m

/-- **The hooks decide** about a message, and its result is delivered after them. -/
structure Decides (m : Message) (s : State) (out : Outcome) : Prop where
  /-- Unless asked to skip, it is called once. -/
  once : ¬ Asked out.trace → invocations m out.trace = 1
  /-- Else it is not called. -/
  never : Asked out.trace → invocations m out.trace = 0
  delivers : ∀ q ∈ s.owed m, ∃ front, out.trace = front ++ [.delivered q out.ret] ∧
    ∀ q' r, Step.delivered q' r ∉ front

/-- **A message is settled**: it comes to the hooks, what the call-window hook answers is what all
of them do, and the message is still the one to be answered. -/
structure Settled (prepared : Prepared) (m : Message) (s : State) (out : Outcome) : Prop where
  goes : ∃ wParam lParam, prepared = .continues false wParam lParam
  destroyed : out.due.bDestroyed = true → Asked out.trace
  last : Asked out.trace →
    out.due.bDestroyed = true ∨ ∃ r, .hook .callWndProc r ∈ out.trace ∧ toBOOL r = true
  answered : ∀ q ∈ s.owed m, prepared = .continues false m.wParam m.lParam ∧
    out.reached.bMsgNeedFree = false ∧ out.reached.msgStack.head? = some q

/-! ### The trace -/

section Trace

variable {n : ℕ} {mgr : HookMgr} {wnd : Window} {m : Message} {s : State}

/-- Nothing is delivered before the end. -/
def Undelivered (trace : List Step) : Prop := ∀ q r, Step.delivered q r ∉ trace

/-- **What is done before the end**: the input hooks, the call-window hooks, the window procedure
if nothing is against it, the hooks that are told, and the frame of the window. -/
structure Shape (m : Message) (due : State) (ret : LRESULT) (trace : List Step) : Prop where
  asked_iff : ∃ r, .hook .callWndProc r ∈ trace ∧
    (∀ r', .hook .callWndProc r' ∈ trace → r' = r) ∧
    invocations m trace = if toBOOL r = true ∨ due.bDestroyed = true then 0 else 1
  undelivered : Undelivered trace

theorem callInputHook_eq {r : List Step × Bool × State}
    (h : callInputHook n mgr wnd m s = some r) : invocations m r.1 = 0 ∧ Undelivered r.1 ∧
      ∀ r', Step.hook .callWndProc r' ∉ r.1 := by
  unfold callInputHook at h
  split_ifs at h
  · obtain ⟨a, -, rfl⟩ := Option.map_eq_some_iff.1 h
    simp [invocations, Step.isCall, Undelivered]
  · obtain ⟨a, -, rfl⟩ := Option.map_eq_some_iff.1 h
    simp [invocations, Step.isCall, Undelivered]
  · obtain rfl := Option.some.inj h
    simp [invocations, Undelivered]

theorem callWindowObjProc_eq {m' : Message} {r : List Step × LRESULT × State}
    (h : callWindowObjProc n mgr wnd m' s = some r) :
    (invocations m r.1 = if s.bDestroyed = true ∨ m'.message ≠ m.message then 0 else 1) ∧
      Undelivered r.1 ∧ ∀ id r', Step.hook id r' ∉ r.1 := by
  unfold callWindowObjProc at h
  split_ifs at h with hd
  · obtain rfl := Option.some.inj h
    simp [invocations, Undelivered, hd]
  · obtain ⟨a, -, rfl⟩ := Option.map_eq_some_iff.1 h
    refine ⟨?_, by simp [Undelivered], by simp⟩
    by_cases heq : m'.message = m.message <;> simp [invocations, Step.isCall, heq, hd]

@[simp]
theorem message_inside : (wnd.inside m).message = m.message := by
  unfold Window.inside
  split_ifs <;> rfl

theorem invocations_append (a b : List Step) :
    invocations m (a ++ b) = invocations m a + invocations m b := List.countP_append

theorem askHooks_eq {out : Outcome} (h : askHooks n mgr wnd m s = some out) :
    ∃ trace, Shape m out.due out.ret trace ∧
      out = finish m trace out.due out.reached out.ret := by
  simp only [askHooks, Option.bind_eq_bind, Option.bind_eq_some_iff] at h
  obtain ⟨⟨input, skip, s₁⟩, hinput, ⟨r, s₂⟩, -, ⟨call, ret, s₃⟩, hcall, ⟨r', s₄⟩, -,
    ⟨paint, ret', s₅⟩, hpaint, hout⟩ := h
  obtain ⟨hin, hinU, hinH⟩ := callInputHook_eq hinput
  obtain rfl := Option.some.inj hout
  have hcalled : (invocations m call = if toBOOL r = true ∨ s₂.bDestroyed = true then 0 else 1) ∧
      Undelivered call ∧ ∀ id r', Step.hook id r' ∉ call := by
    unfold callUnlessSkipped at hcall
    split_ifs at hcall with hskip
    · cases hcall
      simp [invocations, Undelivered, hskip]
    · have hobj := callWindowObjProc_eq (m := m) hcall
      simpa [hskip] using hobj
  have hpainted : invocations m paint = 0 ∧ Undelivered paint ∧
      ∀ id r', Step.hook id r' ∉ paint := by
    unfold callNcPaint at hpaint
    split_ifs at hpaint with hm
    · obtain ⟨hcount, hU, hH⟩ := callWindowObjProc_eq (m := m) hpaint
      refine ⟨?_, hU, hH⟩
      rw [hcount, if_pos]
      right
      show WM_NCPAINT ≠ m.message
      rw [hm]
      decide
    · cases hpaint
      simp [invocations, Undelivered]
  refine ⟨_, ⟨⟨r, by simp, ?_, ?_⟩, ?_⟩, rfl⟩
  · intro r'' hr''
    have hne := hinH r''
    have hcallH := hcalled.2.2 .callWndProc r''
    have hpaintH := hpainted.2.2 .callWndProc r''
    simpa [hne, hcallH, hpaintH] using hr''
  · have hnone : ∀ id r, invocations m [.hook id r] = 0 := fun _ _ => rfl
    rw [invocations_append, invocations_append, invocations_append, invocations_append, hin,
      hnone, hnone, hpainted.1, hcalled.1]
    simp only [Nat.add_zero, Nat.zero_add]
    rfl
  · intro q res hmem
    have h₁ := hinU q res
    have h₂ := hcalled.2.1 q res
    have h₃ := hpainted.2.1 q res
    simp [h₁, h₂, h₃] at hmem

end Trace

/-! ### The end of a walk -/

/-- All handles that a procedure passes on are of a kind. -/
def Body.Passes (P : Option ℕ → Prop) : Body → Prop
  | ret _ => True
  | callNextHookEx hhk _ _ k => P hhk ∧ ∀ r, (k r).Passes P
  | act _ k => ∀ s, (k s).Passes P

theorem Body.exists_run {P : Option ℕ → Prop}
    {next : Option ℕ → Int32 → Args → State → Option (LRESULT × State)}
    (hnext : ∀ hhk nCode args s, P hhk → ∃ r, next hhk nCode args s = some r) {body : Body}
    (hbody : body.Passes P) (s : State) : ∃ r, body.run next s = some r := by
  induction body generalizing s with
  | ret result => exact ⟨(result, s), rfl⟩
  | callNextHookEx hhk nCode args k ih =>
    obtain ⟨r, hr⟩ := hnext hhk nCode args s hbody.1
    obtain ⟨r', hr'⟩ := ih r.1 (hbody.2 r.1) r.2
    exact ⟨r', by rw [run, hr, Option.bind_some, hr']⟩
  | act f k ih => exact ih s (hbody s) (f s)

/-- **The lists are in order**: each hook is once in the list of its kind, and passes on no handle
but its own. -/
structure HookMgr.Ordered (mgr : HookMgr) : Prop where
  id : ∀ id, ∀ h ∈ mgr.chain id, (mgr.hook h).id = id
  nodup : ∀ id, (mgr.chain id).Nodup
  passes : ∀ id, ∀ h ∈ mgr.chain id, ∀ nCode args,
    ((mgr.hook h).proc nCode args).Passes fun hhk => ∀ h' ∈ hhk, h' = h

section Ends

variable {mgr : HookMgr} {n : ℕ}

theorem HookMgr.Ordered.getNextHook (hmgr : mgr.Ordered) {id : WH} {front rest : List ℕ} {h : ℕ}
    (hchain : mgr.chain id = front ++ h :: rest) : mgr.getNextHook (some h) = rest.head? := by
  have hid : (mgr.hook h).id = id := hmgr.id id h (by rw [hchain]; simp)
  have hfront : ∀ h' ∈ front, decide (h' ≠ h) = true := by
    intro h' hh'
    have hnodup := hmgr.nodup id
    rw [hchain, List.nodup_append] at hnodup
    exact decide_eq_true (hnodup.2.2 h' hh' h List.mem_cons_self)
  rw [HookMgr.getNextHook, Option.bind_some, hid, hchain, List.dropWhile_append_of_pos hfront]
  simp

/-- **A walk comes to its end.** -/
theorem HookMgr.Ordered.exists_callHook (hmgr : mgr.Ordered) {id : WH} {front rest : List ℕ}
    (hchain : mgr.chain id = front ++ rest) (hn : rest.length < n) (nCode : Int32) (args : Args)
    (s : State) : ∃ r, mgr.callHook n rest.head? nCode args s = some r := by
  induction rest generalizing front n nCode args s with
  | nil =>
    obtain ⟨n, rfl⟩ := Nat.exists_eq_succ_of_ne_zero (Nat.ne_of_gt hn)
    exact ⟨(0, s), rfl⟩
  | cons h rest ih =>
    obtain ⟨n, rfl⟩ := Nat.exists_eq_succ_of_ne_zero (Nat.ne_of_gt (Nat.zero_lt_of_lt hn))
    have hrest : rest.length < n := Nat.lt_of_succ_lt_succ hn
    have hbehind : mgr.chain id = (front ++ [h]) ++ rest := by
      rw [hchain, List.append_assoc, List.singleton_append]
    rw [List.head?_cons, callHook, hmgr.getNextHook hchain]
    split_ifs
    · refine Body.exists_run (fun hhk nCode args s hhhk => ?_)
        (hmgr.passes id h (by rw [hchain]; simp) nCode args) s
      cases hhk with
      | none =>
        obtain ⟨n, rfl⟩ := Nat.exists_eq_succ_of_ne_zero (Nat.ne_of_gt (Nat.zero_lt_of_lt hrest))
        exact ⟨(0, s), rfl⟩
      | some h' =>
        obtain rfl := hhhk h' rfl
        rw [hmgr.getNextHook hchain]
        exact ih hbehind hrest nCode args s
    · exact ih hbehind hrest nCode args s

theorem HookMgr.Ordered.exists_callFirst (hmgr : mgr.Ordered) {id : WH}
    (hn : (mgr.chain id).length < n) (args : Args) (s : State) :
    ∃ r, mgr.callFirst n id args s = some r :=
  hmgr.exists_callHook (List.nil_append (mgr.chain id)).symm hn HC_ACTION args s

variable {wnd : Window}

theorem exists_callWindowObjProc (hn : 0 < n) (hproc : ∀ m, (wnd.winproc m).Passes (· = none))
    (m : Message) (s : State) : ∃ r, callWindowObjProc n mgr wnd m s = some r := by
  obtain ⟨n, rfl⟩ := Nat.exists_eq_succ_of_ne_zero (Nat.ne_of_gt hn)
  unfold callWindowObjProc
  split_ifs
  · exact ⟨_, rfl⟩
  · have hnext : ∀ hhk nCode args s, hhk = none →
        ∃ r, mgr.next (n + 1) hhk nCode args s = some r := by
      rintro _ nCode args s rfl
      exact ⟨(0, s), rfl⟩
    obtain ⟨r, hr⟩ := Body.exists_run hnext (hproc m) s
    exact ⟨_, congrArg (Option.map _) hr⟩

theorem exists_callInputHook (hmgr : mgr.Ordered) (wnd : Window)
    (hn : ∀ id, (mgr.chain id).length < n)
    (m : Message) (s : State) : ∃ r, callInputHook n mgr wnd m s = some r := by
  unfold callInputHook
  split_ifs
  · obtain ⟨r, hr⟩ := hmgr.exists_callFirst (hn .keyboard) (.keyboard m.wParam m.lParam) s
    exact ⟨_, congrArg (Option.map _) hr⟩
  · obtain ⟨r, hr⟩ := hmgr.exists_callFirst (hn .mouse) (.mouse m.message m.hwnd
      (getXLparam m.lParam) (getYLparam m.lParam) wnd.htCode) s
    exact ⟨_, congrArg (Option.map _) hr⟩
  · exact ⟨_, rfl⟩

/-- **A message is processed** within a bound that is longer than all lists. -/
theorem exists_callWindowProcPriv (hmgr : mgr.Ordered) (hn : ∀ id, (mgr.chain id).length < n)
    (hproc : ∀ m, (wnd.winproc m).Passes (· = none)) (prepared : Prepared) (m : Message)
    (s : State) : ∃ out, callWindowProcPriv n mgr wnd prepared m s = some out := by
  have hpos : 0 < n := Nat.zero_lt_of_lt (hn .keyboard)
  cases prepared with
  | returns ret => exact ⟨_, rfl⟩
  | continues bSkipMsg wParam lParam =>
    simp only [callWindowProcPriv]
    split_ifs
    · exact ⟨_, rfl⟩
    · generalize hm : ({ m with wParam, lParam } : Message) = m'
      obtain ⟨⟨input, skip, s₁⟩, hinput⟩ :=
        exists_callInputHook hmgr wnd hn m' (s.beforeProcMsg m')
      obtain ⟨⟨r, s₂⟩, hr⟩ := hmgr.exists_callFirst (hn .callWndProc) (.callWndProc m') s₁
      have hcall : ∃ c, callUnlessSkipped n mgr wnd (toBOOL r) m' s₂ = some c := by
        unfold callUnlessSkipped
        split_ifs
        · exact ⟨_, rfl⟩
        · exact exists_callWindowObjProc hpos hproc _ _
      obtain ⟨⟨call, ret, s₃⟩, hcall⟩ := hcall
      obtain ⟨⟨r', s₄⟩, hr'⟩ :=
        hmgr.exists_callFirst (hn .callWndProcRet) (.callWndProcRet m' ret) s₃
      have hpaint : ∃ p, callNcPaint n mgr wnd m' s₄ = some p := by
        unfold callNcPaint
        split_ifs
        · exact exists_callWindowObjProc hpos hproc _ _
        · exact ⟨_, rfl⟩
      obtain ⟨⟨paint, ret', s₅⟩, hpaint⟩ := hpaint
      rw [askHooks, hinput]
      simp only [Option.bind_eq_bind, Option.bind_some, hr, hcall, hr', hpaint]
      exact ⟨_, rfl⟩

end Ends

/-! ### Who decides -/

section Decide

variable {m : Message} {s : State} {out : Outcome} {trace : List Step} {due : State}
  {ret : LRESULT}

/-- A message gets its result if it is the last one that was taken. -/
theorem afterProcMsg_eq_some {q : Msg} : (s.afterProcMsg m).1 = some q ↔
    s.bMsgNeedFree = false ∧ s.msgStack.head? = some q ∧ q.fields = m := by
  unfold State.afterProcMsg
  cases hstack : s.msgStack with
  | nil => simp
  | cons q' qs =>
    rw [List.head?_cons, Option.some.injEq]
    by_cases hcond : s.bMsgNeedFree = false ∧ q'.fields = m
    · simp only [hcond, and_self, if_true, true_and, Option.some.injEq]
      exact ⟨fun heq => ⟨heq, heq ▸ hcond.2⟩, And.left⟩
    · simp only [hcond, if_false, reduceCtorEq, false_iff]
      rintro ⟨hfree, rfl, hfields⟩
      exact hcond ⟨hfree, hfields⟩

theorem asked_finish : Asked (finish m trace due s ret).trace ↔ Asked trace := by
  unfold Asked finish
  cases (s.afterProcMsg m).1 <;> simp

theorem invocations_finish (m' : Message) :
    invocations m' (finish m trace due s ret).trace = invocations m' trace := by
  unfold finish
  cases (s.afterProcMsg m).1 <;> simp [invocations, Step.isCall]

theorem hook_mem_finish {id : WH} {r : LRESULT} :
    .hook id r ∈ (finish m trace due s ret).trace ↔ .hook id r ∈ trace := by
  unfold finish
  cases (s.afterProcMsg m).1 <;> simp

/-- **A message gets its result after all else** if and only if it is the one that `AfterProcMsg`
answers. -/
theorem delivers_finish (hU : Undelivered trace) (q : Msg) :
    (∃ front, (finish m trace due s ret).trace = front ++ [.delivered q ret] ∧
      ∀ q' r, Step.delivered q' r ∉ front) ↔ (s.afterProcMsg m).1 = some q := by
  unfold finish
  cases hans : (s.afterProcMsg m).1 with
  | none =>
    refine iff_of_false ?_ (by simp)
    rintro ⟨front, heq, -⟩
    have hmem : Step.delivered q ret ∈ trace := by
      have htrace : trace = front ++ [.delivered q ret] := by simpa using heq
      rw [htrace]
      simp
    exact hU q ret hmem
  | some q' =>
    rw [Option.some.injEq]
    constructor
    · rintro ⟨front, heq, -⟩
      have hlast := congrArg List.getLast? heq
      simpa using hlast
    · rintro rfl
      exact ⟨trace, rfl, hU⟩

/-- With one answer of the call-window hooks, what all hooks decide. -/
theorem Shape.decided_iff (h : Shape m due ret trace) :
    ((¬ Asked trace → invocations m trace = 1) ∧ (Asked trace → invocations m trace = 0)) ↔
      (due.bDestroyed = true → Asked trace) ∧
        (Asked trace → due.bDestroyed = true ∨
          ∃ r, .hook .callWndProc r ∈ trace ∧ toBOOL r = true) := by
  obtain ⟨r, hr, honly, hcount⟩ := h.asked_iff
  have hlast : (∃ r, .hook .callWndProc r ∈ trace ∧ toBOOL r = true) ↔ toBOOL r = true :=
    ⟨fun ⟨r', hr', htrue⟩ => honly r' hr' ▸ htrue, fun htrue => ⟨r, hr, htrue⟩⟩
  have hskip : toBOOL r = true → Asked trace := by
    intro htrue
    refine ⟨_, r, hr, by decide, ?_⟩
    rintro rfl
    exact absurd htrue (by decide)
  rw [hlast, hcount]
  by_cases hasked : Asked trace
  · simp only [hasked, not_true_eq_false, false_imp_iff, true_imp_iff, imp_true_iff, true_and]
    split_ifs with hcond
    · exact iff_of_true rfl hcond.symm
    · exact iff_of_false (by decide) fun h => hcond h.symm
  · simp only [hasked, not_false_eq_true, false_imp_iff, true_imp_iff, and_true, imp_false]
    split_ifs with hcond
    · refine iff_of_false (by decide) fun hdest => ?_
      rcases hcond with htrue | hd
      · exact hasked (hskip htrue)
      · exact hdest hd
    · exact iff_of_true rfl fun hd => hcond (.inr hd)

end Decide

theorem fields_of_owed {m : Message} {s : State} {q : Msg} (h : q ∈ s.owed m) : q.fields = m := by
  obtain ⟨-, h⟩ := Option.filter_eq_some_iff.1 h
  exact (of_decide_eq_true h).2

/-- **Hooks decide**: the window procedure is called once, or not at all if a hook asks for that,
and the result is delivered, if and only if the message is settled. -/
theorem decides_iff {n : ℕ} {mgr : HookMgr} {wnd : Window} {prepared : Prepared} {m : Message}
    {s : State} {out : Outcome} (h : callWindowProcPriv n mgr wnd prepared m s = some out) :
    Decides m s out ↔ Settled prepared m s out := by
  have hno : ¬ Asked [] := by
    rintro ⟨id, r, hmem, -⟩
    exact absurd hmem List.not_mem_nil
  have hnone : invocations m [] ≠ 1 := Nat.zero_ne_one
  cases prepared with
  | returns ret =>
    obtain rfl := Option.some.inj h
    refine iff_of_false (fun hdec => hnone (hdec.once hno)) ?_
    rintro ⟨⟨wParam, lParam, hgoes⟩, -, -, -⟩
    exact absurd hgoes (by simp)
  | continues bSkipMsg wParam lParam =>
    simp only [callWindowProcPriv] at h
    split_ifs at h with hskip
    · obtain rfl := Option.some.inj h
      refine iff_of_false (fun hdec => ?_) ?_
      · have honce := hdec.once fun hasked => hno (asked_finish.1 hasked)
        rw [invocations_finish] at honce
        exact hnone honce
      · rintro ⟨⟨wParam', lParam', hgoes⟩, -, -, -⟩
        rw [Prepared.continues.injEq] at hgoes
        exact absurd (hskip.symm.trans hgoes.1) (by decide)
    · obtain ⟨trace, hshape, heq⟩ := askHooks_eq h
      have hflag : bSkipMsg = false := by simpa using hskip
      have hcalls : invocations m trace = invocations { m with wParam, lParam } trace := rfl
      have htrace : out.trace = (finish { m with wParam, lParam } trace out.due out.reached
        out.ret).trace := congrArg Outcome.trace heq
      have hasked : Asked out.trace ↔ Asked trace := by
        rw [htrace]
        exact asked_finish
      have hcount : invocations m out.trace = invocations m trace := by
        rw [htrace]
        exact invocations_finish m
      have hhook : ∀ r, .hook .callWndProc r ∈ out.trace ↔ .hook .callWndProc r ∈ trace := by
        intro r
        rw [htrace]
        exact hook_mem_finish
      have hdeliver : ∀ q ∈ s.owed m, ((∃ front, out.trace = front ++ [.delivered q out.ret] ∧
          ∀ q' r, Step.delivered q' r ∉ front) ↔
          Prepared.continues bSkipMsg wParam lParam = .continues false m.wParam m.lParam ∧
            out.reached.bMsgNeedFree = false ∧ out.reached.msgStack.head? = some q) := by
        intro q hq
        rw [htrace, delivers_finish hshape.undelivered, afterProcMsg_eq_some, fields_of_owed hq,
          hflag, Prepared.continues.injEq]
        constructor
        · rintro ⟨hfree, hhead, hm⟩
          exact ⟨⟨rfl, (congrArg Message.wParam hm).symm, (congrArg Message.lParam hm).symm⟩,
            hfree, hhead⟩
        · rintro ⟨⟨-, rfl, rfl⟩, hfree, hhead⟩
          exact ⟨hfree, hhead, rfl⟩
      have hdecide := hshape.decided_iff
      rw [← hcalls] at hdecide
      constructor
      · intro hdec
        have hboth := hdecide.1 ⟨fun hn => hcount ▸ hdec.once (fun ha => hn (hasked.1 ha)),
          fun ha => hcount ▸ hdec.never (hasked.2 ha)⟩
        refine ⟨⟨wParam, lParam, by rw [hflag]⟩, fun hd => hasked.2 (hboth.1 hd), fun ha => ?_,
          fun q hq => (hdeliver q hq).1 (hdec.delivers q hq)⟩
        simpa only [hhook] using hboth.2 (hasked.1 ha)
      · intro hset
        have hboth := hdecide.2 ⟨fun hd => hasked.1 (hset.destroyed hd), fun ha => by
          simpa only [hhook] using hset.last (hasked.2 ha)⟩
        exact ⟨fun hn => hcount.trans (hboth.1 fun ha => hn (hasked.2 ha)),
          fun ha => hcount.trans (hboth.2 (hasked.1 ha)),
          fun q hq => (hdeliver q hq).2 (hset.answered q hq)⟩

/-- A keyboard hook and a call-window hook that pass on and take over what they get. -/
def twoHooks (answer : LRESULT) : HookMgr where
  hook h := if h = 0 then ⟨.keyboard, fun nCode args => .callNextHookEx (some 0) nCode args
      fun _ => .ret answer, true⟩
    else ⟨.callWndProc, fun nCode args => .callNextHookEx (some 1) nCode args .ret, true⟩
  chain id := if id = .keyboard then [0] else if id = .callWndProc then [1] else []

/-- A window procedure that returns 7. -/
def sevenWindow : Window := ⟨false, 1, fun _ => .ret 7, 0⟩

/-- A key. -/
def keyDown : Message := ⟨1, 0x0100, 0x41, 0⟩

/-- The thread has removed the key, and its sender waits. -/
def keyRemoved : State := ⟨some ⟨keyDown, 0⟩, true, [], false⟩

/-- What is done for it when the keyboard hook gives this answer. -/
def keyProcessed (answer : LRESULT) : Outcome where
  trace := [.hook .keyboard answer, .hook .callWndProc 0, .winproc 0x0100 7,
    .hook .callWndProcRet 0, .delivered ⟨keyDown, 0⟩ 7]
  due := ⟨none, false, [⟨keyDown, 0⟩], false⟩
  reached := ⟨none, false, [⟨keyDown, 0⟩], false⟩
  ret := 7

/-- A key that no hook asks to skip is processed. -/
theorem decides_key : Decides keyDown keyRemoved (keyProcessed 0) := by
  have hrun : callWindowProcPriv 3 (twoHooks 0) sevenWindow (.continues false 0x41 0) keyDown
      keyRemoved = some (keyProcessed 0) := by decide
  refine (decides_iff hrun).2 ⟨⟨0x41, 0, rfl⟩, fun h => absurd h (by decide), ?_, ?_⟩
  · rintro ⟨id, r, hmem, -, hne⟩
    simp only [keyProcessed, List.mem_cons, Step.hook.injEq, reduceCtorEq, List.not_mem_nil,
      or_false, false_or] at hmem
    rcases hmem with ⟨-, rfl⟩ | ⟨-, rfl⟩ | ⟨-, rfl⟩ <;> exact absurd rfl hne
  · intro q hq
    exact ⟨rfl, rfl, hq⟩

/-- **The keyboard hook is overruled**: it asks to skip a key, and the window procedure is called
for it. -/
theorem keyboard_overruled : callWindowProcPriv 3 (twoHooks 1) sevenWindow
      (.continues false 0x41 0) keyDown keyRemoved = some (keyProcessed 1) ∧
    ¬ Decides keyDown keyRemoved (keyProcessed 1) := by
  refine ⟨by decide, fun h => ?_⟩
  exact absurd (h.never ⟨.keyboard, 1, by decide, by decide, by decide⟩) (by decide)

end HookDelivery

end Swinx
