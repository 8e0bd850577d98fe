import CallMigration.Json.Expect
import CallMigration.Json.Printer
import CallMigration.Proofs.Splice

/-!
# How strings are spelled in JSON

Between the quotes of a JSON string a character stands for itself or is escaped: by a letter, by
its number, or, beyond the first 65536 characters, by the numbers of a surrogate pair. A reader of
strings takes every spelling, and the printer uses one of them.

## Main Definitions

* `Json.Spells` — a text between quotes stands for characters

## Main Statements

* `Json.readString_of_spells` — a spelling is read as what it stands for
* `Json.spells_escapedChars` — what the printer writes is a spelling
* `Json.stringOf_ofString` — the bytes that were read give the string back

## Design Notes

A character may be spelled in several ways, so `Json.Spells` is a relation. It speaks of characters
and not of bytes: a byte of a longer character is never a quote, a backslash or a control character,
which is what lets the reader go byte by byte.
-/

namespace CallMigration

namespace Bytes

/-- The bytes of a string are those of this string only. -/
theorem toString?_ofString (s : String) : toString? (ofString s) = some s := by
  have hvalid : (⟨(ofString s).toArray⟩ : ByteArray).IsValidUTF8 := s.isValidUTF8
  rw [toString?, String.fromUTF8?, dif_pos hvalid, Option.some_inj, ← String.toByteArray_inj]
  rfl

/-- The string that bytes are read as has these bytes. -/
theorem ofString_of_toString? {t : Bytes} {s : String} (h : toString? t = some s) :
    ofString s = t := by
  rw [toString?, String.fromUTF8?] at h
  split_ifs at h
  cases h
  rfl

end Bytes

namespace Json

theorem stringOf_ofString (s : String) : stringOf (Bytes.ofString s) = s := by
  rw [stringOf, Bytes.toString?_ofString, Option.getD_some]

/-! ### Spellings -/

/-- The letters behind a backslash, and what they stand for. -/
def escapeLetters : List (UInt8 × Char) :=
  [(quote, '"'), (backslash, '\\'), (Bytes.slash, '/'), (0x62, '\x08'), (0x66, '\x0c'),
    (0x6E, '\n'), (0x72, '\r'), (0x74, '\t')]

/-- Four hexadecimal digits, of either case, and their number. -/
structure FourDigits (ds : Bytes) (n : Nat) : Prop where
  length_eq : ds.length = 4
  value : hexValue? ds = some n

/-- A text between quotes stands for characters. -/
inductive Spells : Bytes → List Char → Prop
  | nil : Spells [] []
  /-- A character stands for itself. -/
  | plain {c : Char} {t : Bytes} {cs : List Char} (hquote : c ≠ '"') (hbackslash : c ≠ '\\')
      (hcontrol : 0x20 ≤ c.toNat) (ht : Spells t cs) :
      Spells (String.utf8EncodeChar c ++ t) (c :: cs)
  /-- A letter stands for a character. -/
  | letter {b : UInt8} {c : Char} {t : Bytes} {cs : List Char} (hletter : (b, c) ∈ escapeLetters)
      (ht : Spells t cs) : Spells (backslash :: b :: t) (c :: cs)
  /-- A number stands for a character. -/
  | number {ds : Bytes} {c : Char} {t : Bytes} {cs : List Char} (hds : FourDigits ds c.toNat)
      (ht : Spells t cs) : Spells (backslash :: letterU :: (ds ++ t)) (c :: cs)
  /-- Two numbers stand for a character that one has no room for. -/
  | pair {ds ds' : Bytes} {high low : Nat} {c : Char} {t : Bytes} {cs : List Char}
      (hds : FourDigits ds high) (hds' : FourDigits ds' low)
      (hhigh : 0xD800 ≤ high ∧ high ≤ 0xDBFF) (hlow : 0xDC00 ≤ low ∧ low ≤ 0xDFFF)
      (hc : c.toNat = 0x10000 + (high - 0xD800) * 0x400 + (low - 0xDC00)) (ht : Spells t cs) :
      Spells (backslash :: letterU :: (ds ++ backslash :: letterU :: (ds' ++ t))) (c :: cs)

/-- Spellings one behind the other. -/
theorem Spells.append {t u : Bytes} {cs ds : List Char} (ht : Spells t cs) (hu : Spells u ds) :
    Spells (t ++ u) (cs ++ ds) := by
  induction ht with
  | nil => exact hu
  | plain hquote hbackslash hcontrol _ ih =>
    rw [List.append_assoc]
    exact .plain hquote hbackslash hcontrol ih
  | letter hletter _ ih => exact .letter hletter ih
  | number hds _ ih =>
    rw [List.cons_append, List.cons_append, List.append_assoc]
    exact .number hds ih
  | pair hds hds' hhigh hlow hc _ ih =>
    simp only [List.cons_append, List.append_assoc]
    exact .pair hds hds' hhigh hlow hc ih

/-! ### Reading escapes -/

theorem letterEscape?_of_mem : ∀ p ∈ escapeLetters, letterEscape? p.1 = some p.2 := by
  decide

theorem readEscape_letter {b : UInt8} {c : Char} (h : (b, c) ∈ escapeLetters) (rest : Bytes) :
    readEscape (b :: rest) = .ok (c, rest) := by
  rw [readEscape, letterEscape?_of_mem _ h]

theorem readFourHex_append {ds : Bytes} {n : Nat} (h : FourDigits ds n) (rest : Bytes) :
    readFourHex (ds ++ rest) = .ok (n, rest) := by
  obtain ⟨hlength, hvalue⟩ := h
  match ds, hlength with
  | [a, b, c, d], _ =>
    show readFourHex (a :: b :: c :: d :: rest) = _
    rw [readFourHex, hvalue]

theorem readEscape_letterU (t : Bytes) : readEscape (letterU :: t) = readNumberedEscape t := by
  rw [readEscape, show letterEscape? letterU = none by decide, if_pos rfl]

/-- No character has the number of a surrogate. -/
theorem not_isSurrogate (c : Char) :
    isLowSurrogate c.toNat = false ∧ isHighSurrogate c.toNat = false := by
  have hchar : c.toNat.isValidChar := c.valid
  unfold Nat.isValidChar at hchar
  simp only [isLowSurrogate, isHighSurrogate, Bool.and_eq_false_iff, decide_eq_false_iff_not]
  omega

theorem readEscape_number {ds : Bytes} {c : Char} (h : FourDigits ds c.toNat) (rest : Bytes) :
    readEscape (letterU :: (ds ++ rest)) = .ok (c, rest) := by
  obtain ⟨hlow, hhigh⟩ := not_isSurrogate c
  rw [readEscape_letterU, readNumberedEscape, readFourHex_append h]
  simp only [hlow, hhigh, Bool.false_eq_true, if_false, Char.ofNat_toNat]

theorem readEscape_pair {ds ds' : Bytes} {high low : Nat} {c : Char} (h : FourDigits ds high)
    (h' : FourDigits ds' low) (hhigh : 0xD800 ≤ high ∧ high ≤ 0xDBFF)
    (hlow : 0xDC00 ≤ low ∧ low ≤ 0xDFFF)
    (hc : c.toNat = 0x10000 + (high - 0xD800) * 0x400 + (low - 0xDC00)) (rest : Bytes) :
    readEscape (letterU :: (ds ++ backslash :: letterU :: (ds' ++ rest))) = .ok (c, rest) := by
  have hfirst : isLowSurrogate high = false ∧ isHighSurrogate high = true := by
    simp only [isLowSurrogate, isHighSurrogate, Bool.and_eq_false_iff, Bool.and_eq_true,
      decide_eq_false_iff_not, decide_eq_true_iff]
    omega
  have hsecond : isLowSurrogate low = true := by
    simp only [isLowSurrogate, Bool.and_eq_true, decide_eq_true_iff]
    exact hlow
  have hchar : pairChar high low = c := by rw [pairChar, ← hc, Char.ofNat_toNat]
  rw [readEscape_letterU, readNumberedEscape, readFourHex_append h]
  simp only [hfirst, Bool.false_eq_true, if_false, if_true]
  rw [readLowSurrogate, if_neg (not_not_intro rfl)]
  simp only [ne_eq, not_true_eq_false, if_false, readFourHex_append h', hsecond, if_true, hchar]

/-! ### Reading strings -/

/-- No byte of a character is a quote, a backslash or a control character unless the character is
one. -/
theorem plain_of_mem_utf8EncodeChar {c : Char} {b : UInt8} (hquote : c ≠ '"')
    (hbackslash : c ≠ '\\') (hcontrol : 0x20 ≤ c.toNat) (hb : b ∈ String.utf8EncodeChar c) :
    b ≠ quote ∧ b ≠ backslash ∧ ¬ b < 0x20 := by
  refine ⟨?_, ?_, ?_⟩
  · rintro rfl
    exact hquote ((Bytes.mem_utf8EncodeChar_iff (c := '"') (by decide)).1 hb)
  · rintro rfl
    exact hbackslash ((Bytes.mem_utf8EncodeChar_iff (c := '\\') (by decide)).1 hb)
  · rw [UInt8.lt_iff_toNat_lt, Nat.not_lt, show (0x20 : UInt8).toNat = 0x20 from rfl]
    rcases Nat.lt_or_ge c.toNat 0x80 with hc | hc
    · rw [Bytes.utf8EncodeChar_of_lt hc, List.mem_singleton] at hb
      rwa [hb, UInt8.toNat_ofNat_of_lt' (hc.trans (by decide))]
    · exact Nat.le_trans (by decide) (Bytes.le_toNat_of_mem_utf8EncodeChar hc hb)

/-- Bytes without a meaning of their own are taken as they are. -/
theorem readStringFrom_append {bs : Bytes}
    (h : ∀ b ∈ bs, b ≠ quote ∧ b ≠ backslash ∧ ¬ b < 0x20) (seen t : Bytes) :
    readStringFrom seen (bs ++ t) = readStringFrom (bs.reverse ++ seen) t := by
  induction bs generalizing seen with
  | nil => rfl
  | cons b bs ih =>
    obtain ⟨⟨hquote, hbackslash, hcontrol⟩, hbs⟩ := List.forall_mem_cons.1 h
    rw [List.cons_append, readStringFrom, if_neg hquote, if_neg hbackslash, if_neg hcontrol, ih hbs,
      List.reverse_cons, List.append_assoc, List.singleton_append]

/-- An escape is taken as what it stands for. -/
theorem readStringFrom_backslash {c : Char} {t rest : Bytes} (h : readEscape t = .ok (c, rest))
    (seen : Bytes) :
    readStringFrom seen (backslash :: t) =
      readStringFrom ((String.utf8EncodeChar c).reverse ++ seen) rest := by
  rw [readStringFrom, if_neg (by decide), if_pos rfl]
  split
  next e he =>
    rw [h] at he
    cases he
  next c' rest' he =>
    rw [h] at he
    cases he
    rw [Bytes.ofString_toString]

theorem readStringFrom_of_spells {t : Bytes} {cs : List Char} (h : Spells t cs)
    (seen rest : Bytes) :
    readStringFrom seen (t ++ quote :: rest) = .ok (seen.reverse ++ Bytes.ofChars cs, rest) := by
  induction h generalizing seen with
  | nil => rw [List.nil_append, readStringFrom, if_pos rfl, Bytes.ofChars_nil, List.append_nil]
  | plain hquote hbackslash hcontrol ht ih =>
    rw [List.append_assoc, readStringFrom_append
      (fun b hb => plain_of_mem_utf8EncodeChar hquote hbackslash hcontrol hb), ih]
    simp [Bytes.ofChars_cons]
  | letter hletter ht ih =>
    rw [List.cons_append, List.cons_append,
      readStringFrom_backslash (readEscape_letter hletter _), ih]
    simp [Bytes.ofChars_cons]
  | number hds ht ih =>
    rw [List.cons_append, List.cons_append, List.append_assoc,
      readStringFrom_backslash (readEscape_number hds _), ih]
    simp [Bytes.ofChars_cons]
  | pair hds hds' hhigh hlow hc ht ih =>
    rw [List.cons_append, List.cons_append, List.append_assoc, List.cons_append, List.cons_append,
      List.append_assoc, readStringFrom_backslash (readEscape_pair hds hds' hhigh hlow hc _), ih]
    simp [Bytes.ofChars_cons]

/-- A spelling is read as the bytes of what it stands for, up to the quote behind it. -/
theorem readString_of_spells {t : Bytes} {cs : List Char} (h : Spells t cs) (rest : Bytes) :
    readString (t ++ quote :: rest) = .ok (Bytes.ofChars cs, rest) :=
  readStringFrom_of_spells h [] rest

/-! ### Printed strings -/

/-- A control character is shown by the number that it has. -/
theorem fourDigits_fourHex : ∀ n < 0x20, FourDigits (Bytes.ofChars (fourHex n)) n := by
  have hdigits : ∀ n < 0x20, (Bytes.ofChars (fourHex n)).length = 4 ∧
      hexValue? (Bytes.ofChars (fourHex n)) = some n := by decide
  exact fun n hn => ⟨(hdigits n hn).1, (hdigits n hn).2⟩

/-- What the printer writes for a character spells it. -/
theorem Spells.escapedChar_append {t : Bytes} {cs : List Char} (ht : Spells t cs) (c : Char) :
    Spells (Bytes.ofChars (escapedChar c) ++ t) (c :: cs) := by
  unfold escapedChar
  split_ifs with hquote hbackslash hb ht' hn hf hr hcontrol
  · subst hquote
    exact .letter (b := quote) (by decide) ht
  · subst hbackslash
    exact .letter (b := backslash) (by decide) ht
  · subst hb
    exact .letter (b := 0x62) (by decide) ht
  · subst ht'
    exact .letter (b := 0x74) (by decide) ht
  · subst hn
    exact .letter (b := 0x6E) (by decide) ht
  · subst hf
    exact .letter (b := 0x66) (by decide) ht
  · subst hr
    exact .letter (b := 0x72) (by decide) ht
  · exact .number (fourDigits_fourHex _ hcontrol) ht
  · rw [Bytes.ofChars_cons, Bytes.ofChars_nil, List.append_nil]
    exact .plain hquote hbackslash (Nat.le_of_not_lt hcontrol) ht

/-- What the printer writes between quotes spells the string. -/
theorem spells_escapedChars (cs : List Char) :
    Spells (Bytes.ofChars (cs.flatMap escapedChar)) cs := by
  induction cs with
  | nil => exact .nil
  | cons c cs ih =>
    rw [List.flatMap_cons, Bytes.ofChars_append]
    exact ih.escapedChar_append c

end Json

end CallMigration
