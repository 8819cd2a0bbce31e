import Swinx.Registry.Basic

/-!
# One value, written and read

`serializeValueText` writes a value and `valueOf`, after `unquote`, reads it.  They agree on the
bytes (`parseHex_hexText`) and on numbers, but a `REG_DWORD` that is not four bytes long is not
written at all, a value without data comes back with one byte, and a text between quotes that looks
like a typed value comes back with that type.  `sameValue_iff` says that these are all the cases
that go wrong.
-/

namespace Swinx

namespace Registry

/-- **The same value**: the same type and the same data; a terminating NUL of a `REG_SZ` may be
dropped. -/
def SameValue (v w : RegistryValue) : Prop :=
  w.type = v.type ∧ (w.data = v.data ∨ v.type = REG_SZ ∧ v.data = w.data ++ [0])

/-- A text that `storeValue` takes for a typed value. -/
def looksTyped (text : Bytes) : Bool :=
  startsWith (ascii "dword:") text || startsWith (ascii "hex(") text ||
    startsWith (ascii "hex:") text

/-- **The values that survive**: a `REG_DWORD` of four bytes, or a value of another type with data
whose text, if it is written between quotes, does not look like a typed value. -/
def ValueOk (v : RegistryValue) : Prop :=
  if v.type = REG_DWORD then v.data.length = 4
  else v.data ≠ [] ∧
    (v.type = REG_SZ → isSafeText (textOf v.data) = true → looksTyped (textOf v.data) = false)

instance (v w : RegistryValue) : Decidable (SameValue v w) :=
  inferInstanceAs (Decidable (_ ∧ _))

instance (v : RegistryValue) : Decidable (ValueOk v) := by
  unfold ValueOk
  infer_instance

/-! ### Bytes in hexadecimal -/

theorem length_parseHexAux (fuel : ℕ) (text : Bytes) : (parseHexAux fuel text).length ≤ fuel := by
  induction fuel generalizing text with
  | zero => rfl
  | succ fuel ih =>
    unfold parseHexAux
    split
    · exact Nat.zero_le _
    · split
      · exact Nat.zero_le _
      · exact Nat.succ_le_succ (ih _)

theorem length_parseHex (text : Bytes) : (parseHex text).length ≤ text.length :=
  length_parseHexAux _ text

theorem parseHexAux_eq (fuel : ℕ) (text : Bytes) (h : text.length ≤ fuel) :
    parseHexAux fuel text = parseHex text := by
  induction fuel using Nat.strong_induction_on generalizing text with
  | _ fuel ih =>
    cases text with
    | nil => cases fuel <;> rfl
    | cons c s =>
      obtain ⟨fuel, rfl⟩ : ∃ k, fuel = k + 1 := ⟨fuel - 1, by simp at h; omega⟩
      have hskip := List.length_dropWhile_le (fun c => decide (c = comma ∨ c = space)) (c :: s)
      simp only [List.length_cons] at h hskip
      rw [parseHex, List.length_cons, parseHexAux, parseHexAux]
      cases hd : (c :: s).dropWhile fun c => decide (c = comma ∨ c = space) with
      | nil => rfl
      | cons d p =>
        rw [hd] at hskip
        cases hv : strtoul 16 (d :: p) with
        | none => simp only [hv]
        | some r =>
          obtain ⟨v, rest⟩ := r
          have hrest := strtoul_length hv
          simp only [hv]
          rw [ih fuel (Nat.lt_succ_self _) rest (by omega)]
          rcases Nat.lt_or_ge s.length (fuel + 1) with hs | hs
          · rw [ih s.length hs rest (by omega)]
          · omega

/-- **The loop of `parseHex`.** -/
theorem parseHex_eq (text : Bytes) :
    parseHex text = match text.dropWhile fun c => c = comma ∨ c = space with
      | [] => []
      | c :: p =>
        match strtoul 16 (c :: p) with
        | none => []
        | some (v, rest) => v.toUInt8 :: parseHex rest := by
  have hskip := List.length_dropWhile_le (fun c => decide (c = comma ∨ c = space)) text
  rw [← parseHexAux_eq (text.length + 1) text (Nat.le_succ _), parseHexAux]
  cases hd : text.dropWhile fun c => decide (c = comma ∨ c = space) with
  | nil => rfl
  | cons d p =>
    rw [hd] at hskip
    cases hv : strtoul 16 (d :: p) with
    | none => simp only [hv]
    | some r =>
      obtain ⟨v, rest⟩ := r
      have hrest := strtoul_length hv
      simp only [hv]
      rw [parseHexAux_eq _ rest (by omega)]

theorem parseHex_comma (s : Bytes) : parseHex (comma :: s) = parseHex s := by
  rw [parseHex_eq, parseHex_eq s, List.dropWhile_cons_of_pos (by simp)]

theorem parseHex_byte {b : UInt8} {rest : Bytes}
    (hrest : ∀ c, rest.head? = some c → isDigit 16 c = false) :
    parseHex (formatHex 2 b.toNat ++ rest) = b :: parseHex rest := by
  have hlt : b.toNat < 16 ^ 2 := b.toNat_lt
  have hne : formatHex 2 b.toNat ≠ [] := by simp [formatHex]
  have hread : strtoul 16 (formatHex 2 b.toNat ++ rest) =
      some (ofDigits 16 (formatHex 2 b.toNat), rest) :=
    strtoul_append hne isDigit_formatHex hrest (by simp) (by rw [ofDigits_formatHex hlt]; omega)
  rw [ofDigits_formatHex hlt] at hread
  obtain ⟨c, p, hp⟩ := List.exists_cons_of_ne_nil hne
  have hc : isDigit 16 c = true := isDigit_formatHex c (by rw [hp]; exact List.mem_cons_self)
  have hsep : ¬ (c = comma ∨ c = space) := by
    rintro (rfl | rfl) <;> exact absurd hc (by decide)
  rw [hp, List.cons_append] at hread ⊢
  rw [parseHex_eq, List.dropWhile_cons_of_neg (by simpa using hsep)]
  simp [hread]

/-- **The bytes are read back.** -/
theorem parseHex_hexText : ∀ data : Bytes, parseHex (hexText data) = data
  | [] => rfl
  | [b] => by
    have hread : parseHex (formatHex 2 b.toNat ++ []) = b :: parseHex [] := parseHex_byte (by simp)
    rwa [List.append_nil] at hread
  | b :: c :: rest => by
    rw [hexText, parseHex_byte (by simp; decide), parseHex_comma, parseHex_hexText (c :: rest)]
    simp

/-! ### Reading back what was written -/

theorem startsWith_append {word : Bytes} (h : lowerAscii word = word) (rest : Bytes) :
    startsWith word (word ++ rest) = true := by
  simp [startsWith, h]

theorem startsWith_eq_false {word raw : Bytes} {c d : UInt8} (hw : word.head? = some c)
    (hr : raw.head? = some d) (hcd : lowerByte d ≠ c) : startsWith word raw = false := by
  obtain ⟨w, rfl⟩ := List.head?_eq_some_iff.1 hw
  obtain ⟨r, rfl⟩ := List.head?_eq_some_iff.1 hr
  simp [startsWith, lowerAscii, hcd]

theorem dwordOf_lt {data : Bytes} (h : data.length = 4) : dwordOf data < 2 ^ 32 := by
  match data, h with
  | [a, b, c, d], _ =>
    have ha := a.toNat_lt
    have hb := b.toNat_lt
    have hc := c.toNat_lt
    have hd := d.toNat_lt
    simp only [dwordOf, List.foldr_cons, List.foldr_nil]
    omega

theorem dwordBytes_dwordOf {data : Bytes} (h : data.length = 4) :
    dwordBytes (dwordOf data).toUInt32 = data := by
  match data, h with
  | [a, b, c, d], _ =>
    have ha := a.toNat_lt
    have hb := b.toNat_lt
    have hc := c.toNat_lt
    have hd := d.toNat_lt
    simp only [dwordBytes, dwordOf, List.foldr_cons, List.foldr_nil, List.cons.injEq, and_true,
      ← UInt8.toNat_inj]
    refine ⟨?_, ?_, ?_, ?_⟩ <;> simp [Nat.shiftRight_eq_div_pow] <;> omega

theorem valueOf_dword {d : ℕ} (h : d < 2 ^ 32) :
    valueOf (ascii "dword:" ++ formatHex 8 d) = ⟨REG_DWORD, dwordBytes d.toUInt32⟩ := by
  have hd : d < 16 ^ 8 := by omega
  have hread : strtoul 16 (formatHex 8 d) = some (d, []) := by
    have hread : strtoul 16 (formatHex 8 d ++ []) = some (ofDigits 16 (formatHex 8 d), []) :=
      strtoul_append (List.ne_nil_of_length_pos (by simp)) isDigit_formatHex (by simp) (by simp)
        (by rw [ofDigits_formatHex hd]; omega)
    rwa [List.append_nil, ofDigits_formatHex hd] at hread
  rw [valueOf, if_pos (startsWith_append (by decide +kernel) _)]
  have hdrop : (ascii "dword:" ++ formatHex 8 d).drop 6 = formatHex 8 d := rfl
  rw [hdrop, strtoulValue, hread]
  rfl

theorem valueOf_hex (type : UInt32) (bytes : Bytes) :
    valueOf (ascii "hex(" ++ formatDec 9 type.toNat ++ ascii "):" ++ bytes) =
      ⟨type, parseHex bytes⟩ := by
  have hlt : type.toNat < 10 ^ (9 + 1) := type.toNat_lt.trans (by decide)
  have hrest : ∀ c, (ascii "):" ++ bytes).head? = some c → isDigit 10 c = false := by
    intro c hc
    obtain rfl : 41 = c := Option.some.inj hc
    decide
  have hread : strtoul 10 (formatDec 9 type.toNat ++ (ascii "):" ++ bytes)) =
      some (type.toNat, ascii "):" ++ bytes) := by
    have := strtoul_append (formatDec_ne_nil 9 type.toNat) isDigit_formatDec hrest (by simp)
      (by rw [ofDigits_formatDec hlt]; omega)
    rwa [ofDigits_formatDec hlt] at this
  have hbreak : breakOn closeParen (formatDec 9 type.toNat ++ (ascii "):" ++ bytes)) =
      some (formatDec 9 type.toNat, 58 :: bytes) := by
    have hmem : closeParen ∉ formatDec 9 type.toNat := fun hc =>
      absurd (isDigit_formatDec _ hc) (by decide)
    exact breakOn_append hmem
  have hraw : ascii "hex(" ++ formatDec 9 type.toNat ++ ascii "):" ++ bytes =
      ascii "hex(" ++ (formatDec 9 type.toNat ++ (ascii "):" ++ bytes)) := by
    simp only [List.append_assoc]
  have hdrop : (ascii "hex(" ++ (formatDec 9 type.toNat ++ (ascii "):" ++ bytes))).drop 4 =
      formatDec 9 type.toNat ++ (ascii "):" ++ bytes) := rfl
  have hnot : startsWith (ascii "dword:")
      (ascii "hex(" ++ (formatDec 9 type.toNat ++ (ascii "):" ++ bytes))) = false :=
    startsWith_eq_false (c := 100) (d := 104) rfl rfl (by decide)
  obtain ⟨c, ds, hds⟩ := List.exists_cons_of_ne_nil (formatDec_ne_nil 9 type.toNat)
  rw [hraw, valueOf, hnot, if_neg (by simp), if_pos (startsWith_append (by decide +kernel) _),
    hdrop, hbreak, strtoulValue, hread, hds]
  simp

theorem unquote_quoted (s : Bytes) : unquote (quote :: s ++ [quote]) = s := by
  have hlast : (quote :: s ++ [quote]).getLast? = some quote := List.getLast?_concat
  have hlen : 2 ≤ (quote :: s ++ [quote]).length := by simp
  rw [unquote, if_pos ⟨hlen, rfl, hlast⟩, List.cons_append, List.tail_cons, List.dropLast_concat]

theorem unquote_of_head {s : Bytes} {c : UInt8} (h : s.head? = some c) (hc : c ≠ quote) :
    unquote s = s := by
  refine if_neg fun hs => hc ?_
  exact Option.some.inj (h.symm.trans hs.2.1)

theorem textOf_eq (data : Bytes) : data = textOf data ∨ data = textOf data ++ [0] := by
  unfold textOf
  split_ifs with h
  · exact .inr (List.dropLast_append_getLast? 0 h).symm
  · exact .inl rfl

theorem valueOf_text {text : Bytes} (h : looksTyped text = false) :
    valueOf text = ⟨REG_SZ, text⟩ := by
  simp only [looksTyped, Bool.or_eq_false_iff] at h
  simp [valueOf, h]

/-- A text that looks like a typed value does not come back as a text. -/
theorem not_sameValue_of_looksTyped {v : RegistryValue} (hv : v.type = REG_SZ)
    (h : looksTyped (textOf v.data) = true) : ¬ SameValue v (valueOf (textOf v.data)) := by
  rintro ⟨htype, hdata⟩
  have hlen : (textOf v.data).length ≤ v.data.length := by
    rcases textOf_eq v.data with he | he
    · exact (congrArg List.length he).ge
    · rw [congrArg List.length he]
      simp
  have hdword : REG_DWORD ≠ REG_SZ := by decide
  have hbinary : REG_BINARY ≠ REG_SZ := by decide
  rw [hv] at htype
  generalize textOf v.data = text at *
  unfold valueOf at htype hdata
  split_ifs at htype hdata with h₁ h₂ h₃
  · exact hdword htype
  · split at htype
    case h_2 => exact hbinary htype
    case h_1 c ds bytes hbreak =>
      -- Its bytes are fewer than the bytes of the text.
      simp only [hbreak] at hdata
      have hsplit := congrArg List.length (eq_of_breakOn hbreak).1
      have hbytes := length_parseHex bytes
      simp only [List.length_drop, List.length_append, List.length_cons] at hsplit
      rcases hdata with hdata | ⟨-, hdata⟩
      · rw [← hdata] at hlen
        omega
      · rw [hdata, List.length_append, List.length_singleton] at hlen
        omega
  · exact hbinary htype
  · simp [looksTyped, h₁, h₂, h₃] at h

/-- **A value survives exactly if it is written and nothing in it is lost or taken for something
else.** -/
theorem sameValue_iff (v : RegistryValue) :
    (∃ t, serializeValueText v = some t ∧ SameValue v (valueOf (unquote t))) ↔ ValueOk v := by
  unfold serializeValueText ValueOk
  by_cases hd : v.type = REG_DWORD
  · rw [if_pos hd, if_pos hd]
    split_ifs with hlen
    · refine iff_of_true ⟨_, rfl, ?_⟩ hlen
      rw [unquote_of_head (c := 100) rfl (by decide), valueOf_dword (dwordOf_lt hlen),
        dwordBytes_dwordOf hlen]
      exact ⟨hd.symm, .inl rfl⟩
    · exact iff_of_false (by simp) hlen
  rw [if_neg hd, if_neg hd]
  by_cases hsafe : v.type = REG_SZ ∧ isSafeText (textOf v.data) = true
  · obtain ⟨hsz, hsafe⟩ := hsafe
    have hne : v.data ≠ [] := by
      intro hnil
      simp [hnil, textOf, isSafeText] at hsafe
    rw [if_pos ⟨hsz, hsafe⟩]
    simp only [Option.some.injEq, exists_eq_left', unquote_quoted]
    cases htyped : looksTyped (textOf v.data) with
    | false =>
      refine iff_of_true ?_ ⟨hne, fun _ _ => rfl⟩
      rw [valueOf_text htyped]
      exact ⟨hsz.symm, (textOf_eq v.data).imp Eq.symm fun he => ⟨hsz, he⟩⟩
    | true =>
      refine iff_of_false (not_sameValue_of_looksTyped hsz htyped) fun hok => ?_
      exact absurd (hok.2 hsz hsafe) (by simp)
  · have himp : v.type = REG_SZ → isSafeText (textOf v.data) = true →
        looksTyped (textOf v.data) = false := fun h₁ h₂ => absurd ⟨h₁, h₂⟩ hsafe
    rw [if_neg hsafe]
    simp only [Option.some.injEq, exists_eq_left']
    rw [unquote_of_head (c := 104) rfl (by decide), valueOf_hex]
    by_cases hne : v.data = []
    · refine iff_of_false ?_ fun hok => hok.1 hne
      rw [if_pos hne]
      rintro ⟨-, h | ⟨-, h⟩⟩ <;> simp [hne] at h
      exact absurd h (by decide)
    · refine iff_of_true ?_ ⟨hne, himp⟩
      rw [if_neg hne, parseHex_hexText]
      exact ⟨rfl, .inl rfl⟩

end Registry

end Swinx
