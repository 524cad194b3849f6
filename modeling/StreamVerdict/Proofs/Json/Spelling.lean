/-
  Strings and numbers are read as they were written.

  A character is written as one piece of a string: as itself, with a letter, or with its code.
  The pieces of a string are read back one after the other, and they make the string again.  A
  number below 2^64 is written with its decimal digits, and these are read back as far as no
  digit, point or exponent follows.
-/
import StreamVerdict.Json.Printer
import StreamVerdict.Json.Token

namespace StreamVerdict
namespace Json

/-! ### Strings -/

namespace Piece

/-- The piece that a character is written as. -/
def ofChar (c : Char) : Piece :=
  if c ∈ ['\x22', '\\', '\x08', '\x0c', '\n', '\r', '\t'] then letter c
  else if c.toNat < 0x20 then unit c.toNat
  else char c

theorem hexDigit?_hexChar : ∀ n < 16, Text.hexDigit? (hexChar n) = some n := by decide

/-- Control characters are written with a code unit that is their code. -/
theorem codeUnit?_hexChar {n : Nat} (h : n < 0x20) :
    codeUnit? '0' '0' (hexChar (n / 16)) (hexChar (n % 16)) = some n := by
  have hzero : Text.hexDigit? '0' = some 0 := by decide
  have hhigh := hexDigit?_hexChar (n / 16) (by omega)
  have hlow := hexDigit?_hexChar (n % 16) (by omega)
  have hsum : 4096 * 0 + 256 * 0 + 16 * (n / 16) + n % 16 = n := by omega
  simp only [codeUnit?, hzero, hhigh, hlow, Option.bind_eq_bind, Option.bind_some,
    Option.pure_def, hsum]

/-- A character that needs no escape is read as itself. -/
theorem readAll_char (acc : List Piece) {c : Char} (hquote : c ≠ '\x22') (hslash : c ≠ '\\')
    (hcode : ¬ c.toNat < 0x20) (rest : List Char) :
    readAll acc (c :: rest) = readAll (char c :: acc) rest := by
  rw [readAll.eq_def]
  split
  · contradiction
  · next heq =>
    cases heq
    contradiction
  · next heq =>
    cases heq
    contradiction
  · next heq =>
    cases heq
    contradiction
  · next heq =>
    cases heq
    exact if_neg (by simp [hcode, hslash])

/-- What is written for a character is read as its piece. -/
theorem readAll_escape (acc : List Piece) (c : Char) (rest : List Char) :
    readAll acc (escape c ++ rest) = readAll (ofChar c :: acc) rest := by
  by_cases hletter : c ∈ ['\x22', '\\', '\x08', '\x0c', '\n', '\r', '\t']
  · simp only [List.mem_cons, List.not_mem_nil, or_false] at hletter
    rcases hletter with rfl | rfl | rfl | rfl | rfl | rfl | rfl <;> rfl
  · have hpiece : ofChar c = if c.toNat < 0x20 then unit c.toNat else char c := if_neg hletter
    simp only [List.mem_cons, List.not_mem_nil, or_false, not_or] at hletter
    obtain ⟨hquote, hslash, hb, hf, hn, hr, ht⟩ := hletter
    rw [hpiece, escape, if_neg hquote, if_neg hslash, if_neg hb, if_neg hf, if_neg hn, if_neg hr,
      if_neg ht]
    by_cases hcode : c.toNat < 0x20
    · rw [if_pos hcode, if_pos hcode]
      show readAll acc ('\\' :: 'u' :: '0' :: '0' :: hexChar (c.toNat / 16) ::
        hexChar (c.toNat % 16) :: rest) = _
      rw [readAll, codeUnit?_hexChar hcode]
    · rw [if_neg hcode, if_neg hcode]
      exact readAll_char acc hquote hslash hcode rest

/-- The pieces of a string end at its closing quote. -/
theorem readAll_flatMap_escape (acc : List Piece) (cs rest : List Char) :
    readAll acc (cs.flatMap escape ++ '\x22' :: rest) =
      some (acc.reverse ++ cs.map ofChar, rest) := by
  induction cs generalizing acc with
  | nil => rw [List.flatMap_nil, List.nil_append, readAll, List.map_nil, List.append_nil]
  | cons c cs ih =>
      rw [List.flatMap_cons, List.append_assoc, readAll_escape, ih, List.reverse_cons,
        List.append_assoc]
      rfl

/-- A piece makes its character again. -/
theorem join?_ofChar (acc : List Char) (c : Char) (ps : List Piece) :
    join? acc (ofChar c :: ps) = join? (c :: acc) ps := by
  rw [ofChar]
  split
  · rw [join?]
  · split
    · next hcode =>
      rw [join?.eq_def]
      show (if c.toNat < 0xD800 ∨ 0xDFFF < c.toNat then _ else _) = _
      rw [if_pos (Or.inl (by omega)), Char.ofNat_toNat]
    · rw [join?]

theorem join?_map_ofChar (acc cs : List Char) :
    join? acc (cs.map ofChar) = some (acc.reverse ++ cs) := by
  induction cs generalizing acc with
  | nil => rw [List.map_nil, join?, List.append_nil]
  | cons c cs ih =>
      rw [List.map_cons, join?_ofChar, ih, List.reverse_cons, List.append_assoc]
      rfl

end Piece

/-- A text is written without escapes. -/
def isPlain (s : String) : Bool := (s.toList.map Piece.ofChar).all Piece.isChar

namespace Token

/-- The pieces of a text make the text again. -/
theorem toToken_map_ofChar (s : String) :
    Piece.toToken (s.toList.map Piece.ofChar) = text s (isPlain s) := by
  have hjoin : Piece.join? [] (s.toList.map Piece.ofChar) = some s.toList :=
    Piece.join?_map_ofChar [] s.toList
  simp only [Piece.toToken, hjoin, String.ofList_toList]
  rfl

theorem readToken_quoted (s : String) (rest : List Char) :
    readToken (quoted s ++ rest) = some (text s (isPlain s), rest) := by
  have hquoted : quoted s ++ rest = '\x22' :: (s.toList.flatMap escape ++ '\x22' :: rest) := by
    simp [quoted]
  rw [hquoted, readToken, Piece.readAll_flatMap_escape, Option.map_some, List.reverse_nil,
    List.nil_append, toToken_map_ofChar]

example : quoted "é\x22\n\x01" =
    ['\x22', 'é', '\\', '\x22', '\\', 'n', '\\', 'u', '0', '0', '0', '1', '\x22'] := by
  decide

end Token

/-! ### Numbers -/

namespace Numeral

theorem le_ofDigitChars (cs : List Char) (n : Nat) : n ≤ Nat.ofDigitChars 10 cs n := by
  induction cs generalizing n with
  | nil => exact Nat.le_of_eq Nat.ofDigitChars_nil.symm
  | cons c cs ih =>
      have hrest := ih (10 * n + (c.toNat - '0'.toNat))
      rw [Nat.ofDigitChars_cons]
      omega

/-- No digit of a number below 2^64 is left out. -/
theorem wholePart_eq {cs : List Char} (h : Nat.ofDigitChars 10 cs 0 < UInt64.size) :
    wholePart cs = (Nat.ofDigitChars 10 cs 0, 0) := by
  rw [wholePart]
  -- The digits read so far are a number no greater than the whole.
  suffices ∀ (cs : List Char) (n : Nat), Nat.ofDigitChars 10 cs n < UInt64.size →
      cs.foldl (fun (part : Nat × Nat) c =>
        let next := 10 * part.1 + digit c
        if 0 < part.2 ∨ UInt64.size ≤ next then (part.1, part.2 + 1) else (next, 0)) (n, 0) =
        (Nat.ofDigitChars 10 cs n, 0) from this cs 0 h
  intro cs
  induction cs with
  | nil =>
      intro n _
      rw [List.foldl_nil, Nat.ofDigitChars_nil]
  | cons c cs ih =>
      intro n hn
      rw [Nat.ofDigitChars_cons] at hn
      have hle := le_ofDigitChars cs (10 * n + digit c)
      have hnext : 10 * n + digit c < UInt64.size := Nat.lt_of_le_of_lt hle hn
      have hif : ¬ (0 < 0 ∨ UInt64.size ≤ 10 * n + digit c) := by omega
      rw [List.foldl_cons, Nat.ofDigitChars_cons]
      simp only [if_neg hif]
      exact ih _ hn

theorem isVast_decimal {n : Nat} (h : n < UInt64.size) :
    isVast ⟨Text.decimal n, [], none⟩ = false := by
  have hvalue : Nat.ofDigitChars 10 (Text.decimal n) 0 = n :=
    Nat.ofDigitChars_toDigits (by decide) (by decide)
  have hwhole := wholePart_eq (hvalue ▸ h)
  rw [isVast]
  simp only [hwhole]
  rfl

end Numeral

namespace Token

/-- No digit, point or exponent follows. -/
def EndsNumber (rest : List Char) : Prop :=
  ∀ c ∈ rest.head?, c.isDigit = false ∧ c ≠ '.' ∧ c ≠ 'e' ∧ c ≠ 'E'

theorem endsNumber_nil : EndsNumber [] := by
  intro c hc
  cases hc

theorem endsNumber_cons {c : Char} (hdigit : c.isDigit = false) (hpoint : c ≠ '.') (he : c ≠ 'e')
    (hE : c ≠ 'E') (rest : List Char) : EndsNumber (c :: rest) := by
  intro c' hc'
  obtain rfl : c = c' := by simpa using hc'
  exact ⟨hdigit, hpoint, he, hE⟩

section Number

variable {rest : List Char}

theorem span_digits {ds : List Char} (hds : ∀ c ∈ ds, c.isDigit) (hrest : EndsNumber rest) :
    (ds ++ rest).takeWhile Char.isDigit = ds ∧ (ds ++ rest).dropWhile Char.isDigit = rest := by
  rw [List.takeWhile_append_of_pos hds, List.dropWhile_append_of_pos hds]
  cases rest with
  | nil => simp
  | cons c rest =>
      have hc : ¬ c.isDigit := by simp [(hrest c rfl).1]
      rw [List.takeWhile_cons_of_neg hc, List.dropWhile_cons_of_neg hc, List.append_nil]
      exact ⟨rfl, rfl⟩

theorem readDigits_append {ds : List Char} (hds : ∀ c ∈ ds, c.isDigit) (hne : ds ≠ [])
    (hrest : EndsNumber rest) : readDigits (ds ++ rest) = some (ds, rest) := by
  obtain ⟨htake, hdrop⟩ := span_digits hds hrest
  rw [readDigits, htake, hdrop]
  cases ds with
  | nil => exact absurd rfl hne
  | cons d ds => rfl

theorem readFraction_none (hrest : EndsNumber rest) : readFraction rest = some ([], rest) := by
  rw [readFraction.eq_def]
  split
  · exact absurd rfl (hrest '.' rfl).2.1
  · rfl

theorem readExponent_none (hrest : EndsNumber rest) : readExponent rest = some (none, rest) := by
  cases rest with
  | nil => rfl
  | cons c rest =>
      obtain ⟨-, -, he, hE⟩ := hrest c rfl
      have hmark : ¬ (c = 'e' ∨ c = 'E') := not_or.mpr ⟨he, hE⟩
      simp only [readExponent.eq_def, if_neg hmark]

theorem isDigit_of_mem_decimal {n : Nat} {c : Char} (h : c ∈ Text.decimal n) : c.isDigit :=
  Nat.isDigit_of_mem_toDigits (by decide) (by decide) h

theorem decimal_ne_nil (n : Nat) : Text.decimal n ≠ [] := Nat.toDigits_ne_nil

/-- Only zero is written with a zero in front. -/
theorem decimal_of_head_zero {n : Nat} {ds : List Char} (h : Text.decimal n = '0' :: ds) :
    ds = [] := by
  have hzero : ∀ d < 10, Nat.digitChar d = '0' → d = 0 := by decide
  -- The first digit of `n` is that of `n / 10`, as long as this is not zero.
  have hnumber : ∀ n ds, Nat.toDigits 10 n = '0' :: ds → n = 0 := by
    intro n
    induction n using Nat.strongRecOn with
    | ind n ih =>
        intro ds hds
        rw [Nat.toDigits_eq_if (by decide)] at hds
        split at hds
        · next hlt => exact hzero n hlt (List.cons.inj hds).1
        · next hge =>
          obtain ⟨c, cs, hcs⟩ := List.exists_cons_of_ne_nil (Nat.toDigits_ne_nil (n := n / 10))
          rw [hcs, List.cons_append] at hds
          rw [(List.cons.inj hds).1] at hcs
          have hdiv := ih (n / 10) (by omega) cs hcs
          omega
  obtain rfl := hnumber n ds h
  exact (List.cons.inj h).2.symm

theorem readWhole_decimal (n : Nat) (hrest : EndsNumber rest) :
    readWhole (Text.decimal n ++ rest) = some (Text.decimal n, rest) := by
  rw [readWhole.eq_def]
  split
  · next tail heq =>
    obtain ⟨c, ds, hds⟩ := List.exists_cons_of_ne_nil (decimal_ne_nil n)
    rw [hds, List.cons_append] at heq
    obtain ⟨rfl, rfl⟩ := List.cons.inj heq
    obtain rfl := decimal_of_head_zero hds
    rw [hds]
    rfl
  · exact readDigits_append (fun c hc => isDigit_of_mem_decimal hc) (decimal_ne_nil n) hrest

/-- The first character of a number that is written. -/
theorem exists_digit_decimal (n : Nat) :
    ∃ c ds, Text.decimal n = c :: ds ∧ c.isDigit := by
  obtain ⟨c, ds, hds⟩ := List.exists_cons_of_ne_nil (decimal_ne_nil n)
  exact ⟨c, ds, hds, isDigit_of_mem_decimal (n := n) (by rw [hds]; exact List.mem_cons_self)⟩

theorem readNumber_decimal {n : Nat} (hn : n < UInt64.size) (hrest : EndsNumber rest) :
    readNumber (Text.decimal n ++ rest) = some (nat n, rest) := by
  obtain ⟨c, ds, hds, hc⟩ := exists_digit_decimal n
  have hsign : ¬ (Text.decimal n ++ rest).head? = some '-' := by
    rw [hds]
    intro hhead
    obtain rfl : c = '-' := by simpa using hhead
    exact absurd hc (by decide)
  have hvalue : Nat.ofDigitChars 10 (Text.decimal n) 0 = n :=
    Nat.ofDigitChars_toDigits (by decide) (by decide)
  simp only [readNumber, hsign, decide_false, Bool.false_eq_true, if_false,
    readWhole_decimal n hrest, readFraction_none hrest, readExponent_none hrest,
    Numeral.isVast_decimal hn, hvalue, Option.bind_eq_bind, Option.bind_some]
  rfl

theorem readToken_decimal {n : Nat} (hn : n < UInt64.size) (hrest : EndsNumber rest) :
    readToken (Text.decimal n ++ rest) = some (nat n, rest) := by
  obtain ⟨c, ds, hds, hc⟩ := exists_digit_decimal n
  rw [← readNumber_decimal hn hrest, hds, List.cons_append, readToken.eq_def]
  -- All other words begin with a character that is no digit.
  split
  case h_11 => rfl
  all_goals
    next heq =>
      rw [(List.cons.inj heq).1] at hc
      exact absurd hc (by decide)

end Number

end Token

end Json
end StreamVerdict
