import Swinx.Data.CString

/-!
# The text of a socket address

`WSAAddressToString` writes an address as `host:port`, or `[host]:port` if it is an IPv6 address;
`WSAStringToAddress` takes such a text apart again.  The text of the host alone is a matter of
`psxNtop` and `psxPton`, which are parameters; that they are inverse to each other and write what
their manual says is `Documented`.

Pointers are not `NULL`.  `sin_zero`, which only fills a `SOCKADDR_IN`, is left out.

* `comesBack_iff` — an address comes back if and only if it has no scope id and no flow label.
* `text_iff` — both results, for addresses and for texts.
-/

namespace Swinx

namespace SockText

def AF_UNSPEC : ℤ := 0

def AF_INET : ℤ := 2

def AF_INET6 : ℤ := 23

def WSAEFAULT : ℕ := 10014

def WSAEINVAL : ℕ := 10022

/-- `n` bytes -/
structure Octets (n : ℕ) where
  bytes : Bytes
  length_eq : bytes.length = n

/-- `PsxAfInet` and `PsxAfInet6` -/
inductive PsxFamily
  | inet
  | inet6
deriving DecidableEq

/-- `PsxAddr` -/
structure PsxAddr where
  family : PsxFamily
  /-- In host order -/
  port : UInt16
  bytes : Octets 16
  scope : UInt32

/-- `SOCKADDR`, by its family -/
inductive SockAddr
  | inet (sin_port : UInt16) (sin_addr : Octets 4)
  | inet6 (sin6_port : UInt16) (sin6_flowinfo : UInt32) (sin6_addr : Octets 16)
      (sin6_scope_id : UInt32)
  | other (sa_family : UInt16)

/-- `psxNtop` with a buffer of `INET6_ADDRSTRLEN` bytes, and `psxPton`. -/
structure Resolver where
  psxNtop : PsxFamily → Octets 16 → Option Bytes
  psxPton : PsxFamily → Bytes → Option (Octets 16)

/-- `sizeof(SOCKADDR_IN)` -/
def sizeofIn : ℤ := 16

/-- `sizeof(SOCKADDR_IN6)` -/
def sizeofIn6 : ℤ := 28

/-- `swap16`, on a little-endian machine -/
def swap16 (v : UInt16) : UInt16 := ((v &&& 0x00FF) <<< 8) ||| ((v &&& 0xFF00) >>> 8)

/-- Four bytes in front of twelve zeros. -/
def Octets.pad (a : Octets 4) : Octets 16 :=
  ⟨a.bytes ++ List.replicate 12 0, by rw [List.length_append, a.length_eq, List.length_replicate]⟩

def Octets.first (a : Octets 16) : Octets 4 :=
  ⟨a.bytes.take 4, by rw [List.length_take, a.length_eq]; rfl⟩

/-- `addrFromWin` -/
def addrFromWin (sa : SockAddr) (len : ℤ) : Option PsxAddr :=
  match sa with
  | .inet sin_port sin_addr =>
    if sizeofIn ≤ len then some ⟨.inet, swap16 sin_port, sin_addr.pad, 0⟩ else none
  | .inet6 sin6_port _ sin6_addr sin6_scope_id =>
    if sizeofIn6 ≤ len then some ⟨.inet6, swap16 sin6_port, sin6_addr, sin6_scope_id⟩ else none
  | .other _ => none

/-- `addrToWin`: what it writes, and how much; `none` is 0 -/
def addrToWin (a : PsxAddr) (capacity : ℤ) : Option (SockAddr × ℤ) :=
  match a.family with
  | .inet =>
    if sizeofIn ≤ capacity then some (.inet (swap16 a.port) a.bytes.first, sizeofIn) else none
  | .inet6 =>
    if sizeofIn6 ≤ capacity then some (.inet6 (swap16 a.port) 0 a.bytes a.scope, sizeofIn6)
    else none

/-- `std::to_string` of a port -/
def portText (port : UInt16) : Bytes := formatDec 4 port.toNat

/-- `text` of `WSAAddressToStringA` -/
def addressText (family : PsxFamily) (host : Bytes) (port : UInt16) : Bytes :=
  (match family with
    | .inet6 => 91 :: host ++ [93]
    | .inet => host) ++ 58 :: portText port

/-- What a function leaves: its error, or what it wrote, and the length. -/
abbrev Written (α : Type) := Except (ℕ × UInt32) (List α × UInt32)

section Code

variable (psx : Resolver)

/-- `WSAAddressToStringA`, with a buffer of `size` bytes -/
def wsaAddressToStringA (sa : SockAddr) (dwAddressLength size : UInt32) : Written UInt8 :=
  match addrFromWin sa dwAddressLength.toInt32.toInt with
  | none => .error (WSAEINVAL, size)
  | some a =>
    match psx.psxNtop a.family a.bytes with
    | none => .error (WSAEINVAL, size)
    | some host =>
      let text := addressText a.family host a.port
      let needed := (text.length + 1).toUInt32
      if size < needed then .error (WSAEFAULT, needed) else .ok (text ++ [0], needed)

/-- `WSAAddressToStringW`, with a buffer of `size` characters -/
def wsaAddressToStringW (sa : SockAddr) (dwAddressLength size : UInt32) : Written UInt32 :=
  match wsaAddressToStringA psx sa dwAddressLength 128 with
  | .error (e, _) => .error (e, size)
  | .ok (narrow, _) =>
    let needed := ((cstr narrow).length + 1).toUInt32
    if size < needed then .error (WSAEFAULT, needed)
    else .ok ((cstr narrow ++ [0]).map UInt8.toUInt32, needed)

/-- `atoi`, which is `strtol` narrowed to an `int` -/
def atoi (s : Bytes) : ℤ :=
  let (negative, ds) := takeSign (s.dropWhile isSpace)
  let n : ℤ := ofDigits 10 (ds.takeWhile (isDigit 10))
  (max (-9223372036854775808) (min 9223372036854775807 (if negative then -n else n))).bmod
    4294967296

/-- `(unsigned short)atoi(s)` -/
def atoport (s : Bytes) : UInt16 := (atoi s % 65536).toNat.toUInt16

def hasColon (s : Bytes) : Bool := s.any fun c => c = 58

/-- `host` and `port` of `WSAStringToAddressA`; `none` if a bracket is not closed -/
def splitPort (text : Bytes) : Option (Bytes × UInt16) :=
  if text.head? = some 91 then
    match breakOn 93 text.tail with
    | none => none
    | some (host, after) =>
      if after.head? = some 58 then some (host, atoport after.tail) else some (host, 0)
  else
    match breakOn 58 text with
    | none => some (text, 0)
    | some (host, port) => if hasColon port then some (text, 0) else some (host, atoport port)

/-- `family` of `WSAStringToAddressA`, and what it makes of it -/
def familyOf (addressFamily : ℤ) (host : Bytes) : PsxFamily :=
  let family := if addressFamily = AF_UNSPEC then (if hasColon host then AF_INET6 else AF_INET)
    else addressFamily
  if family = AF_INET6 then .inet6 else .inet

/-- `WSAStringToAddressA`, with room for `length` bytes -/
def wsaStringToAddressA (s : Bytes) (addressFamily length : ℤ) : Except ℕ (SockAddr × ℤ) :=
  match splitPort (cstr s) with
  | none => .error WSAEINVAL
  | some (host, port) =>
    match psx.psxPton (familyOf addressFamily host) host with
    | none => .error WSAEINVAL
    | some bytes =>
      match addrToWin ⟨familyOf addressFamily host, port, bytes, 0⟩ length with
      | none => .error WSAEFAULT
      | some written => .ok written

/-- The string at a pointer to wide characters. -/
def wcstr (s : List UInt32) : List UInt32 := s.takeWhile (· ≠ 0)

/-- `narrow` of `WSAStringToAddressW`: 127 characters, and of each its low byte -/
def narrow (s : List UInt32) : Bytes := ((wcstr s).take 127).map UInt32.toUInt8

/-- `WSAStringToAddressW` -/
def wsaStringToAddressW (s : List UInt32) (addressFamily length : ℤ) :
    Except ℕ (SockAddr × ℤ) :=
  wsaStringToAddressA psx (narrow s) addressFamily length

end Code

/-! ### What is relied on -/

/-- The family of an address, and its size. -/
def SockAddr.family : SockAddr → ℤ
  | .inet _ _ => AF_INET
  | .inet6 _ _ _ _ => AF_INET6
  | .other f => f.toNat

def SockAddr.size : SockAddr → ℤ
  | .inet _ _ => sizeofIn
  | .inet6 _ _ _ _ => sizeofIn6
  | .other _ => 0

def PsxFamily.number : PsxFamily → ℤ
  | .inet => AF_INET
  | .inet6 => AF_INET6

/-- The room that `addrToWin` asks for. -/
def PsxFamily.size : PsxFamily → ℤ
  | .inet => sizeofIn
  | .inet6 => sizeofIn6

/-- A character of an IPv4 address in text. -/
def DottedChar (c : UInt8) : Prop := isDigit 10 c = true ∨ c = 46

/-- A character of an IPv6 address in text. -/
def ColonChar (c : UInt8) : Prop := isDigit 16 c = true ∨ c = 46 ∨ c = 58

/-- **What the manual says of `psxNtop` and `psxPton`** at one address: they are inverse to each
other, and the text is one of digits and dots, or of hexadecimal digits, dots and colons with at
least one colon, that fits the buffer. -/
structure Documented (psx : Resolver) (family : PsxFamily) (bytes : Octets 16) (host : Bytes) :
    Prop where
  ntop : psx.psxNtop family bytes = some host
  pton : psx.psxPton family host = some bytes
  length : host.length < 65
  dotted : family = .inet → ∀ c ∈ host, DottedChar c
  colons : family = .inet6 → (∀ c ∈ host, ColonChar c) ∧ 58 ∈ host

/-- What `psxNtop` is asked about an address. -/
def SockAddr.query : SockAddr → Option (PsxFamily × Octets 16)
  | .inet _ a => some (.inet, a.pad)
  | .inet6 _ _ a _ => some (.inet6, a)
  | .other _ => none

/-- **The round trip of an address**: there is a text such that a buffer that is too short is told
the length of it and any other holds it, in both forms, and from it, whatever stands behind its
end, both forms get the address for its family and for `AF_UNSPEC`. -/
def RoundTrips (psx : Resolver) (sa : SockAddr) : Prop :=
  ∃ text : Bytes, ∃ needed : UInt32, needed.toNat = text.length + 1 ∧
    (∀ len size : UInt32, sa.size ≤ len.toInt32.toInt →
      wsaAddressToStringA psx sa len size =
          (if size < needed then .error (WSAEFAULT, needed) else .ok (text ++ [0], needed)) ∧
        wsaAddressToStringW psx sa len size =
          (if size < needed then .error (WSAEFAULT, needed)
          else .ok ((text ++ [0]).map UInt8.toUInt32, needed))) ∧
    ∀ addressFamily length : ℤ, (addressFamily = sa.family ∨ addressFamily = AF_UNSPEC) →
      sa.size ≤ length → (∀ rest,
        wsaStringToAddressA psx (text ++ 0 :: rest) addressFamily length = .ok (sa, sa.size)) ∧
      ∀ rest, wsaStringToAddressW psx (text.map UInt8.toUInt32 ++ 0 :: rest) addressFamily length =
        .ok (sa, sa.size)

/-- **When an address comes back** -/
def Textual : SockAddr → Prop
  | .inet _ _ => True
  | .inet6 _ flowinfo _ scope => flowinfo = 0 ∧ scope = 0
  | .other _ => False

/-- The value of decimal digits. -/
def decimalValue (cs : List ℕ) : ℕ := cs.foldl (fun n c => n * 10 + (c - 48)) 0

/-- A decimal number between 0 and 65535. -/
def IsPort (cs : List ℕ) : Prop :=
  cs ≠ [] ∧ (∀ c ∈ cs, 48 ≤ c ∧ c ≤ 57) ∧ decimalValue cs ≤ 65535

/-- **A text that is to be refused**, in characters of any width: something other than a colon and
a port is behind the closing bracket, or what follows the only colon is no port. -/
def Malformed (text : List ℕ) : Prop :=
  (∃ host after, text = 91 :: host ++ 93 :: after ∧ 93 ∉ host ∧ after ≠ [] ∧
      ¬ ∃ port, after = 58 :: port ∧ IsPort port) ∨
    (text.head? ≠ some 91 ∧ ∃ host port, text = host ++ 58 :: port ∧ 58 ∉ host ∧ 58 ∉ port ∧
      ¬ IsPort port)

/-- **A text that cannot be an address** whatever its port is: its bracket is not closed, its host
is no address of the family, or there is no room. -/
def Hopeless (psx : Resolver) (s : Bytes) (addressFamily length : ℤ) : Prop :=
  ∀ host port, splitPort (cstr s) = some (host, port) →
    psx.psxPton (familyOf addressFamily host) host = none ∨
      length < (familyOf addressFamily host).size

/-! ### Ports -/

theorem swap16_swap16 (v : UInt16) : swap16 (swap16 v) = v := by
  apply UInt16.toBitVec_inj.1
  simp only [swap16, UInt16.toBitVec_or, UInt16.toBitVec_and, UInt16.toBitVec_shiftLeft,
    UInt16.toBitVec_shiftRight]
  ext i hi
  interval_cases i <;> simp

theorem isDigit_portText {port : UInt16} : ∀ c ∈ portText port, isDigit 10 c = true :=
  isDigit_formatDec

theorem ofDigits_portText (port : UInt16) : ofDigits 10 (portText port) = port.toNat :=
  ofDigits_formatDec (lt_trans port.toNat_lt (by decide))

theorem length_formatDec_le (k n : ℕ) : (formatDec k n).length ≤ k + 1 := by
  induction k generalizing n with
  | zero => exact le_rfl
  | succ k ih =>
    rw [formatDec]
    split_ifs
    · simp
    · rw [List.length_append, List.length_singleton]
      exact Nat.succ_le_succ (ih (n / 10))

theorem notMem_of_isDigit {cs : Bytes} {c : UInt8} {base : ℕ}
    (h : ∀ d ∈ cs, isDigit base d = true) (hc : isDigit base c = false) : c ∉ cs := fun hmem => by
  rw [h c hmem] at hc
  exact Bool.noConfusion hc

theorem atoport_portText (port : UInt16) : atoport (portText port) = port := by
  have hsplit : takeSign ((portText port).dropWhile isSpace) = (false, portText port) := by
    cases hport : portText port with
    | nil => exact absurd hport (formatDec_ne_nil 4 _)
    | cons c cs =>
      have hc : isDigit 10 c = true := isDigit_portText c (hport ▸ List.mem_cons_self)
      rw [List.dropWhile_cons_of_neg (by simp [not_isSpace_of_isDigit hc]), takeSign_of_isDigit hc]
  have htake : (portText port).takeWhile (isDigit 10) = portText port :=
    List.takeWhile_eq_self_iff.2 isDigit_portText
  have hlt := port.toNat_lt
  have hatoi : atoi (portText port) = port.toNat := by
    unfold atoi
    simp only [hsplit, htake, ofDigits_portText, Bool.false_eq_true, if_false]
    rw [min_eq_right (by omega), max_eq_right (by omega),
      Int.bmod_eq_of_le (by omega) (by omega)]
  rw [atoport, hatoi, Int.emod_eq_of_lt (by omega) (by omega)]
  exact UInt16.ofNat_toNat

/-! ### The text -/

theorem DottedChar.ne_special {c : UInt8} (h : DottedChar c) : c ≠ 0 ∧ c ≠ 58 ∧ c ≠ 91 := by
  rcases h with h | rfl
  · refine ⟨?_, ?_, ?_⟩ <;>
      · rintro rfl
        exact absurd h (by decide)
  · decide

theorem ColonChar.ne_special {c : UInt8} (h : ColonChar c) : c ≠ 0 ∧ c ≠ 93 := by
  rcases h with h | rfl | rfl
  · refine ⟨?_, ?_⟩ <;>
      · rintro rfl
        exact absurd h (by decide)
  · decide
  · decide

theorem zero_notMem_portText (port : UInt16) : 0 ∉ portText port :=
  notMem_of_isDigit isDigit_portText (by decide)

theorem colon_notMem_portText (port : UInt16) : 58 ∉ portText port :=
  notMem_of_isDigit isDigit_portText (by decide)

theorem hasColon_iff {s : Bytes} : hasColon s = true ↔ 58 ∈ s := by
  unfold hasColon
  simp only [List.any_eq_true, decide_eq_true_eq, exists_eq_right]

theorem hasColon_eq_false {s : Bytes} (h : 58 ∉ s) : hasColon s = false :=
  Bool.eq_false_iff.2 fun hs => h (hasColon_iff.1 hs)

variable {psx : Resolver} {family : PsxFamily} {bytes : Octets 16} {host : Bytes}

theorem Documented.zero_notMem (h : Documented psx family bytes host) : 0 ∉ host := by
  intro h0
  cases family with
  | inet => exact (DottedChar.ne_special (h.dotted rfl 0 h0)).1 rfl
  | inet6 => exact (ColonChar.ne_special ((h.colons rfl).1 0 h0)).1 rfl

theorem Documented.zero_notMem_text (h : Documented psx family bytes host) (port : UInt16) :
    0 ∉ addressText family host port := by
  have hport := zero_notMem_portText port
  have hhost := h.zero_notMem
  unfold addressText
  cases family <;> simp [hport, hhost]

theorem Documented.length_text (h : Documented psx family bytes host) (port : UInt16) :
    (addressText family host port).length ≤ 72 := by
  have hport : (portText port).length ≤ 5 := length_formatDec_le 4 port.toNat
  have hhost := h.length
  unfold addressText
  cases family <;> simp <;> omega

/-- **A text is taken apart** where it was put together. -/
theorem Documented.splitPort_text (h : Documented psx family bytes host) (port : UInt16) :
    splitPort (addressText family host port) = some (host, port) := by
  have hport := hasColon_eq_false (colon_notMem_portText port)
  unfold addressText splitPort
  cases family with
  | inet =>
    have hhead : (host ++ 58 :: portText port).head? ≠ some 91 := by
      cases host with
      | nil => simp
      | cons c host =>
        have hc := (DottedChar.ne_special (h.dotted rfl c List.mem_cons_self)).2.2
        simpa using hc
    have hcolon : 58 ∉ host := fun hmem => (DottedChar.ne_special (h.dotted rfl 58 hmem)).2.1 rfl
    simp only
    rw [if_neg hhead, breakOn_append hcolon]
    simp only [hport, Bool.false_eq_true, if_false, atoport_portText]
  | inet6 =>
    have hclose : 93 ∉ host := fun hmem => (ColonChar.ne_special ((h.colons rfl).1 93 hmem)).2 rfl
    simp only [List.cons_append, List.append_assoc, List.nil_append, List.head?_cons,
      List.tail_cons, if_true]
    rw [breakOn_append hclose]
    simp only [List.head?_cons, List.tail_cons, if_true, atoport_portText]

theorem Documented.familyOf_eq (h : Documented psx family bytes host) {addressFamily : ℤ}
    (hfam : addressFamily = family.number ∨ addressFamily = AF_UNSPEC) :
    familyOf addressFamily host = family := by
  unfold familyOf
  cases family with
  | inet =>
    have hcolon : 58 ∉ host := fun hmem => (DottedChar.ne_special (h.dotted rfl 58 hmem)).2.1 rfl
    rcases hfam with rfl | rfl
    · rfl
    · simp only [hasColon_eq_false hcolon, Bool.false_eq_true, if_true, if_false]
      rfl
  | inet6 =>
    have hcolon : 58 ∈ host := (h.colons rfl).2
    rcases hfam with rfl | rfl
    · rfl
    · simp only [hasColon_iff.2 hcolon, if_true]

theorem needed_toNat {text : Bytes} (h : text.length ≤ 72) :
    (text.length + 1).toUInt32.toNat = text.length + 1 := by
  simp only [Nat.toUInt32, UInt32.toNat_ofNat']
  omega

/-- **What `WSAAddressToStringA` writes.** -/
theorem addressToStringA_eq (h : Documented psx family bytes host) {sa : SockAddr}
    {len : UInt32} {port : UInt16} {scope : UInt32}
    (hsa : addrFromWin sa len.toInt32.toInt = some ⟨family, port, bytes, scope⟩)
    (size : UInt32) :
    wsaAddressToStringA psx sa len size =
      if size < ((addressText family host port).length + 1).toUInt32 then
        .error (WSAEFAULT, ((addressText family host port).length + 1).toUInt32)
      else .ok (addressText family host port ++ [0],
        ((addressText family host port).length + 1).toUInt32) := by
  unfold wsaAddressToStringA
  simp only [hsa, h.ntop]

/-- **What `WSAAddressToStringW` writes.** -/
theorem addressToStringW_eq (h : Documented psx family bytes host) {sa : SockAddr}
    {len : UInt32} {port : UInt16} {scope : UInt32}
    (hsa : addrFromWin sa len.toInt32.toInt = some ⟨family, port, bytes, scope⟩)
    (size : UInt32) :
    wsaAddressToStringW psx sa len size =
      if size < ((addressText family host port).length + 1).toUInt32 then
        .error (WSAEFAULT, ((addressText family host port).length + 1).toUInt32)
      else .ok ((addressText family host port ++ [0]).map UInt8.toUInt32,
        ((addressText family host port).length + 1).toUInt32) := by
  have hfits : ¬ (128 : UInt32) < ((addressText family host port).length + 1).toUInt32 := by
    have hlen := h.length_text port
    rw [UInt32.lt_iff_toNat_lt, needed_toNat hlen, show (128 : UInt32).toNat = 128 from rfl]
    omega
  have hcstr : cstr (addressText family host port ++ [0]) = addressText family host port := by
    unfold cstr
    rw [List.takeWhile_append_of_pos fun c hc => by
      simpa using ne_of_mem_of_not_mem hc (h.zero_notMem_text port)]
    simp
  unfold wsaAddressToStringW
  rw [addressToStringA_eq h hsa, if_neg hfits]
  simp only [hcstr]

theorem narrow_widen {text : Bytes} (h0 : 0 ∉ text) (hlen : text.length ≤ 127)
    (rest : List UInt32) : narrow (text.map UInt8.toUInt32 ++ 0 :: rest) = text := by
  have hne : ∀ c ∈ text.map UInt8.toUInt32, decide (c ≠ 0) = true := by
    intro c hc
    obtain ⟨b, hb, rfl⟩ := List.mem_map.1 hc
    refine decide_eq_true fun h => ne_of_mem_of_not_mem hb h0 ?_
    exact UInt8.toNat_inj.1 (by simpa using congrArg UInt32.toNat h)
  have hcut : wcstr (text.map UInt8.toUInt32 ++ 0 :: rest) = text.map UInt8.toUInt32 := by
    unfold wcstr
    rw [List.takeWhile_append_of_pos hne, List.takeWhile_cons_of_neg (by simp), List.append_nil]
  unfold narrow
  rw [hcut, List.take_of_length_le (by rwa [List.length_map]), List.map_map]
  exact (List.map_congr_left fun b _ => by simp).trans (List.map_id text)

theorem cstr_append_zero {text : Bytes} (h0 : 0 ∉ text) (rest : Bytes) :
    cstr (text ++ 0 :: rest) = text := by
  unfold cstr
  rw [List.takeWhile_append_of_pos fun c hc => by
    simpa using ne_of_mem_of_not_mem hc h0, List.takeWhile_cons_of_neg (by simp), List.append_nil]

/-- What a text has of an address. -/
def regained (family : PsxFamily) (port : UInt16) (bytes : Octets 16) : SockAddr :=
  match family with
  | .inet => .inet (swap16 port) bytes.first
  | .inet6 => .inet6 (swap16 port) 0 bytes 0

/-- **What `WSAStringToAddressA` makes of a text that was written.** -/
theorem stringToAddressA_eq (h : Documented psx family bytes host) {port : UInt16} {s : Bytes}
    (hs : cstr s = addressText family host port) {addressFamily : ℤ}
    (hfam : addressFamily = family.number ∨ addressFamily = AF_UNSPEC) {length : ℤ}
    (hlength : family.size ≤ length) :
    wsaStringToAddressA psx s addressFamily length =
      .ok (regained family port bytes, family.size) := by
  unfold wsaStringToAddressA
  simp only [hs, h.splitPort_text, h.familyOf_eq hfam, h.pton, addrToWin]
  cases family with
  | inet => simp only [if_pos (show sizeofIn ≤ length from hlength), regained, PsxFamily.size]
  | inet6 => simp only [if_pos (show sizeofIn6 ≤ length from hlength), regained, PsxFamily.size]

theorem addrToWin_eq_none_iff (a : PsxAddr) (capacity : ℤ) :
    addrToWin a capacity = none ↔ capacity < a.family.size := by
  unfold addrToWin PsxFamily.size
  cases a.family <;> simp only [ite_eq_right_iff, reduceCtorEq, imp_false, not_le]

/-- **`WSAStringToAddress` fails** if and only if the text is hopeless. -/
theorem stringToAddressA_error_iff (psx : Resolver) (s : Bytes) (addressFamily length : ℤ) :
    (∃ e, wsaStringToAddressA psx s addressFamily length = .error e) ↔
      Hopeless psx s addressFamily length := by
  unfold wsaStringToAddressA Hopeless
  cases hsplit : splitPort (cstr s) with
  | none => exact iff_of_true ⟨_, rfl⟩ fun host port h => absurd h (by simp)
  | some hp =>
    obtain ⟨host, port⟩ := hp
    have hone : ∀ P : Bytes → Prop,
        (∀ host' port', some (host, port) = some (host', port') → P host') ↔ P host := by
      intro P
      refine ⟨fun h => h host port rfl, fun h host' port' heq => ?_⟩
      obtain ⟨rfl, -⟩ := Prod.mk.inj (Option.some.inj heq)
      exact h
    rw [hone fun host' => psx.psxPton (familyOf addressFamily host') host' = none ∨
      length < (familyOf addressFamily host').size]
    simp only
    cases hpton : psx.psxPton (familyOf addressFamily host) host with
    | none => exact iff_of_true ⟨_, rfl⟩ (.inl rfl)
    | some bytes =>
      have hroom := addrToWin_eq_none_iff ⟨familyOf addressFamily host, port, bytes, 0⟩ length
      simp only [reduceCtorEq, false_or]
      cases hwritten : addrToWin ⟨familyOf addressFamily host, port, bytes, 0⟩ length with
      | none => exact iff_of_true ⟨_, rfl⟩ (hroom.1 hwritten)
      | some written =>
        refine iff_of_false (by simp) fun hlt => ?_
        rw [hroom.2 hlt] at hwritten
        cases hwritten

theorem first_pad (a : Octets 4) : a.pad.first = a := by
  obtain ⟨bytes, hbytes⟩ := a
  simp only [Octets.pad, Octets.first, Octets.mk.injEq]
  exact List.take_left' hbytes

/-- What `addrFromWin` takes of an address, and when that is all there is. -/
theorem addrFromWin_spec {sa : SockAddr} {q : PsxFamily × Octets 16} (hq : sa.query = some q) :
    ∃ port scope, (∀ len, sa.size ≤ len → addrFromWin sa len = some ⟨q.1, port, q.2, scope⟩) ∧
      sa.family = q.1.number ∧ sa.size = q.1.size ∧
      (regained q.1 port q.2 = sa ↔ Textual sa) := by
  cases sa with
  | inet port a =>
    obtain rfl := Option.some.inj hq
    refine ⟨swap16 port, 0, fun len hlen => if_pos hlen, rfl, rfl, ?_⟩
    exact iff_of_true (by simp only [regained, swap16_swap16, first_pad]) trivial
  | inet6 port flowinfo a scope =>
    obtain rfl := Option.some.inj hq
    refine ⟨swap16 port, scope, fun len hlen => if_pos hlen, rfl, rfl, ?_⟩
    simp only [regained, swap16_swap16, SockAddr.inet6.injEq, true_and, Textual]
    exact and_congr eq_comm eq_comm
  | other f => cases hq

/-- **The round trip of a socket address.** -/
theorem comesBack_iff {psx : Resolver} {sa : SockAddr} {q : PsxFamily × Octets 16}
    (hq : sa.query = some q) {host : Bytes} (h : Documented psx q.1 q.2 host) :
    RoundTrips psx sa ↔ Textual sa := by
  obtain ⟨port, scope, hfrom, hfam, hsize, hback⟩ := addrFromWin_spec hq
  have hlen := h.length_text port
  have hzero := h.zero_notMem_text port
  rw [← hback]
  constructor
  · rintro ⟨text, needed, -, hto, hfromText⟩
    -- A long buffer shows which text it is.
    have hsizeof : sa.size ≤ (28 : UInt32).toInt32.toInt := by
      rw [hsize]
      cases q.1 <;> decide
    have hshown := (hto 28 4294967295 hsizeof).1
    rw [addressToStringA_eq h (hfrom _ hsizeof), if_neg (by
      rw [UInt32.lt_iff_toNat_lt, needed_toNat hlen]
      simp only [UInt32.reduceToNat]
      omega), if_neg (by
      rw [UInt32.lt_iff_toNat_lt]
      have := needed.toNat_lt
      simp only [UInt32.reduceToNat]
      omega)] at hshown
    have htext : text = addressText q.1 host port :=
      (List.append_cancel_right (Prod.mk.inj (Except.ok.inj hshown)).1).symm
    have hgot := (hfromText sa.family sa.size (.inl rfl) le_rfl).1 []
    rw [htext, stringToAddressA_eq h (cstr_append_zero hzero []) (.inl hfam) hsize.ge] at hgot
    exact (Prod.mk.inj (Except.ok.inj hgot)).1
  · intro hsa
    refine ⟨addressText q.1 host port, _, needed_toNat hlen, fun len size hlen' => ⟨?_, ?_⟩,
      fun addressFamily length hfamily hlength => ⟨fun rest => ?_, fun rest => ?_⟩⟩
    · exact addressToStringA_eq h (hfrom _ hlen') size
    · exact addressToStringW_eq h (hfrom _ hlen') size
    · rw [stringToAddressA_eq h (cstr_append_zero hzero rest) (hfam ▸ hfamily)
        (hsize ▸ hlength), hsa, hsize]
    · rw [wsaStringToAddressW, narrow_widen hzero (by omega),
        stringToAddressA_eq h (cstr_eq_self hzero) (hfam ▸ hfamily) (hsize ▸ hlength), hsa, hsize]

/-- **Addresses and texts**: an address comes back from its text if and only if it has no scope id
and no flow label, and a text that is to be refused is refused if and only if it is hopeless
anyway, in both forms. -/
theorem text_iff {psx : Resolver} {sa : SockAddr} {q : PsxFamily × Octets 16}
    (hq : sa.query = some q) {host : Bytes} (h : Documented psx q.1 q.2 host) :
    (RoundTrips psx sa ↔ Textual sa) ∧
      (∀ s addressFamily length,
        ((Malformed ((cstr s).map UInt8.toNat) →
            ∃ e, wsaStringToAddressA psx s addressFamily length = .error e) ↔
          ¬ Malformed ((cstr s).map UInt8.toNat) ∨ Hopeless psx s addressFamily length)) ∧
      ∀ s addressFamily length,
        ((Malformed ((wcstr s).map UInt32.toNat) →
            ∃ e, wsaStringToAddressW psx s addressFamily length = .error e) ↔
          ¬ Malformed ((wcstr s).map UInt32.toNat) ∨
            Hopeless psx (narrow s) addressFamily length) := by
  refine ⟨comesBack_iff hq h, fun s addressFamily length => ?_, fun s addressFamily length => ?_⟩
  · rw [stringToAddressA_error_iff, imp_iff_not_or]
  · rw [wsaStringToAddressW, stringToAddressA_error_iff, imp_iff_not_or]

/-- `::1` -/
def loopback : Octets 16 := ⟨[0, 0, 0, 0, 0, 0, 0, 0, 0, 0, 0, 0, 0, 0, 0, 1], rfl⟩

/-- The text `::1` -/
def loopbackText : Bytes := [58, 58, 49]

/-- A resolver that knows `::1`. -/
def loopbackResolver : Resolver where
  psxNtop _ _ := some loopbackText
  psxPton _ host := if host = loopbackText then some loopback else none

theorem documented_loopback : Documented loopbackResolver .inet6 loopback loopbackText := by
  refine ⟨rfl, by simp [loopbackResolver], by decide, fun h => absurd h (by decide),
    fun _ => ⟨?_, by decide⟩⟩
  intro c hc
  simp only [loopbackText, List.mem_cons, List.not_mem_nil, or_false] at hc
  rcases hc with rfl | rfl | rfl
  · exact .inr (.inr rfl)
  · exact .inr (.inr rfl)
  · exact .inl (by decide)

theorem text_loopback :
    RoundTrips loopbackResolver (.inet6 (swap16 80) 0 loopback 0) :=
  (text_iff rfl documented_loopback).1.2 ⟨rfl, rfl⟩

/-- `[::1]:99999` -/
def largePort : Bytes := [91, 58, 58, 49, 93, 58, 57, 57, 57, 57, 57]

/-- **A scope id is lost, and a port is not looked at**: `[::1]:99999` is an address. -/
theorem scope_lost :
    ¬ RoundTrips loopbackResolver (.inet6 (swap16 80) 0 loopback 5) ∧
      Malformed ((cstr largePort).map UInt8.toNat) ∧
      wsaStringToAddressA loopbackResolver largePort AF_INET6 28 =
        .ok (.inet6 (swap16 34463) 0 loopback 0, 28) := by
  refine ⟨fun h => ?_, ?_, ?_⟩
  · have := (comesBack_iff rfl documented_loopback).1 h
    exact absurd this.2 (by decide)
  · refine .inl ⟨[58, 58, 49], [58, 57, 57, 57, 57, 57], by decide, by decide, by decide, ?_⟩
    rintro ⟨port, hport, -, -, hvalue⟩
    obtain rfl := (List.cons.inj hport).2
    exact absurd hvalue (by decide)
  · have hsplit : splitPort (cstr largePort) = some (loopbackText, 34463) := by decide
    unfold wsaStringToAddressA
    rw [hsplit]
    rfl

end SockText

end Swinx
