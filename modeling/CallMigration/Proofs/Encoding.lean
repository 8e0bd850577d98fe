import Mathlib.Algebra.GroupWithZero.Nat
import CallMigration.Proofs.Splice
import CallMigration.Utf8

/-!
# Well-formed texts are encodings

A text of well-formed UTF-8 is shown as the string that it encodes. So what such a text is shown as
stands for this text and no other.

## Main Statements

* `Utf8.Valid.exists_char` — a well-formed text starts with the first character that it shows
* `Utf8.ofString_decodeLossy` — encoding what is shown gives the text back
* `Utf8.Valid.exists_ofChars` — a well-formed text is made of the bytes of characters
-/

namespace CallMigration

namespace Utf8

/-! ### One character -/

theorem val_ofNat {v : Nat} (h : v.isValidChar) : (Char.ofNat v).val.toNat = v := by
  rw [Char.ofNat, dif_pos h]
  rfl

theorem utf8EncodeChar_ofNat {v : Nat} (h : v.isValidChar) :
    String.utf8EncodeChar (Char.ofNat v) =
      if v ≤ 0x7F then [UInt8.ofNat v]
      else if v ≤ 0x7FF then [UInt8.ofNat (v / 64 % 32 + 0xC0), UInt8.ofNat (v % 64 + 0x80)]
      else if v ≤ 0xFFFF then
        [UInt8.ofNat (v / 4096 % 16 + 0xE0), UInt8.ofNat (v / 64 % 64 + 0x80),
          UInt8.ofNat (v % 64 + 0x80)]
      else
        [UInt8.ofNat (v / 262144 % 8 + 0xF0), UInt8.ofNat (v / 4096 % 64 + 0x80),
          UInt8.ofNat (v / 64 % 64 + 0x80), UInt8.ofNat (v % 64 + 0x80)] := by
  simp only [String.utf8EncodeChar, val_ofNat h]

/-- A number that is the value of a byte stands for this byte. -/
theorem ofNat_eq_of_toNat_eq {n : Nat} {b : UInt8} (h : n = b.toNat) : UInt8.ofNat n = b := by
  rw [h, UInt8.ofNat_toNat]

theorem utf8EncodeChar_one {b : UInt8} (h : b.toNat < 0x80) :
    String.utf8EncodeChar (Char.ofNat b.toNat) = [b] := by
  rw [utf8EncodeChar_ofNat (.inl (by omega)), if_pos (by omega), UInt8.ofNat_toNat]

theorem utf8EncodeChar_two {b c : UInt8} (hb : 0xC2 ≤ b.toNat ∧ b.toNat < 0xE0)
    (hc : 0x80 ≤ c.toNat ∧ c.toNat ≤ 0xBF) :
    String.utf8EncodeChar (Char.ofNat (b.toNat % 32 * 64 + c.toNat % 64)) = [b, c] := by
  generalize hv : b.toNat % 32 * 64 + c.toNat % 64 = v
  rw [utf8EncodeChar_ofNat (.inl (by omega)), if_neg (by omega), if_pos (by omega),
    ofNat_eq_of_toNat_eq (b := b) (by omega), ofNat_eq_of_toNat_eq (b := c) (by omega)]

/-- The narrowed ranges leave out what fits into two bytes, and the surrogates. -/
theorem utf8EncodeChar_three {b c d : UInt8} (hb : 0xE0 ≤ b.toNat ∧ b.toNat < 0xF0)
    (hc : 0x80 ≤ c.toNat ∧ c.toNat ≤ 0xBF) (hlong : b.toNat = 0xE0 → 0xA0 ≤ c.toNat)
    (hsurrogate : b.toNat = 0xED → c.toNat ≤ 0x9F) (hd : 0x80 ≤ d.toNat ∧ d.toNat ≤ 0xBF) :
    String.utf8EncodeChar
      (Char.ofNat ((b.toNat % 16 * 64 + c.toNat % 64) * 64 + d.toNat % 64)) = [b, c, d] := by
  generalize hv : (b.toNat % 16 * 64 + c.toNat % 64) * 64 + d.toNat % 64 = v
  have hchar : v.isValidChar := by
    unfold Nat.isValidChar
    omega
  rw [utf8EncodeChar_ofNat hchar, if_neg (by omega), if_neg (by omega), if_pos (by omega),
    ofNat_eq_of_toNat_eq (b := b) (by omega), ofNat_eq_of_toNat_eq (b := c) (by omega),
    ofNat_eq_of_toNat_eq (b := d) (by omega)]

/-- The narrowed ranges leave out what fits into three bytes, and what is no character. -/
theorem utf8EncodeChar_four {b c d e : UInt8} (hb : 0xF0 ≤ b.toNat ∧ b.toNat < 0xF5)
    (hc : 0x80 ≤ c.toNat ∧ c.toNat ≤ 0xBF) (hlong : b.toNat = 0xF0 → 0x90 ≤ c.toNat)
    (hlast : b.toNat = 0xF4 → c.toNat ≤ 0x8F) (hd : 0x80 ≤ d.toNat ∧ d.toNat ≤ 0xBF)
    (he : 0x80 ≤ e.toNat ∧ e.toNat ≤ 0xBF) :
    String.utf8EncodeChar (Char.ofNat
      (((b.toNat % 8 * 64 + c.toNat % 64) * 64 + d.toNat % 64) * 64 + e.toNat % 64)) =
        [b, c, d, e] := by
  generalize hv : ((b.toNat % 8 * 64 + c.toNat % 64) * 64 + d.toNat % 64) * 64 + e.toNat % 64 = v
  have hchar : v.isValidChar := by
    unfold Nat.isValidChar
    omega
  rw [utf8EncodeChar_ofNat hchar, if_neg (by omega), if_neg (by omega), if_neg (by omega),
    ofNat_eq_of_toNat_eq (b := b) (by omega), ofNat_eq_of_toNat_eq (b := c) (by omega),
    ofNat_eq_of_toNat_eq (b := d) (by omega), ofNat_eq_of_toNat_eq (b := e) (by omega)]

/-! ### The machine -/

theorem ByteRange.holds_iff (r : ByteRange) (b : UInt8) :
    r.Holds b ↔ r.1.toNat ≤ b.toNat ∧ b.toNat ≤ r.2.toNat := by
  rw [ByteRange.Holds, UInt8.le_iff_toNat_le, UInt8.le_iff_toNat_le]

/-- Where a text ends to be well formed is counted from where it starts, but whether it does is
not. -/
theorem invalidFrom_eq_none_congr {awaited : List ByteRange} {start offset : Nat} {t : Bytes}
    (h : invalidFrom awaited start offset t = none) (start' offset' : Nat) :
    invalidFrom awaited start' offset' t = none := by
  fun_induction invalidFrom awaited start offset t generalizing start' offset' with
  | case1 awaited start offset hempty => rw [invalidFrom, if_pos hempty]
  | case2 => cases h
  | case3 start offset b t ranges hlead ih =>
    rw [invalidFrom, hlead]
    exact ih h _ _
  | case4 => cases h
  | case5 start offset b t range more hholds ih =>
    rw [invalidFrom, if_pos hholds]
    exact ih h _ _
  | case6 => cases h

/-- The value of a character whose first bytes have the value `v`. -/
def valueOf (v : Nat) (more : Bytes) : Nat := more.foldl (fun v b => v * 64 + b.toNat % 64) v

/-- A well-formed text that continues a character has a byte for each range, and is well formed
behind them. -/
theorem exists_of_invalidFrom_eq_none {range : ByteRange} {ranges : List ByteRange}
    {start offset : Nat} {t : Bytes} (h : invalidFrom (range :: ranges) start offset t = none)
    (v : Nat) :
    ∃ more rest, t = more ++ rest ∧ List.Forall₂ ByteRange.Holds (range :: ranges) more ∧
      Valid rest ∧ charsFrom ⟨range :: ranges, v⟩ t =
        Char.ofNat (valueOf v more) :: charsFrom .none rest := by
  induction ranges generalizing range start offset t v with
  | nil =>
    cases t with
    | nil => cases h
    | cons b t =>
      rw [invalidFrom] at h
      split at h
      next hholds =>
        refine ⟨[b], t, rfl, .cons hholds .nil, invalidFrom_eq_none_congr h 0 0, ?_⟩
        simp [charsFrom, step, hholds, valueOf]
      · cases h
  | cons next ranges ih =>
    cases t with
    | nil => cases h
    | cons b t =>
      rw [invalidFrom] at h
      split at h
      next hholds =>
        obtain ⟨more, rest, rfl, hmore, hrest, hchars⟩ := ih h (v * 64 + b.toNat % 64)
        refine ⟨b :: more, rest, rfl, .cons hholds hmore, hrest, ?_⟩
        simp [charsFrom, step, hholds, valueOf, hchars]
      · cases h

/-- The ranges of a first byte by the length of its characters. The first range is narrowed where
the first byte alone does not rule out what is no character. -/
theorem continuation_cases {b : UInt8} {ranges : List ByteRange}
    (h : continuation b = some ranges) :
    (ranges = [] ∧ b.toNat < 0x80) ∨
    (ranges = [trailing] ∧ 0xC2 ≤ b.toNat ∧ b.toNat < 0xE0) ∨
    (∃ r, ranges = [r, trailing] ∧ (0xE0 ≤ b.toNat ∧ b.toNat < 0xF0) ∧
      (0x80 ≤ r.1.toNat ∧ r.2.toNat ≤ 0xBF) ∧ (b.toNat = 0xE0 → 0xA0 ≤ r.1.toNat) ∧
      (b.toNat = 0xED → r.2.toNat ≤ 0x9F)) ∨
    (∃ r, ranges = [r, trailing, trailing] ∧ (0xF0 ≤ b.toNat ∧ b.toNat < 0xF5) ∧
      (0x80 ≤ r.1.toNat ∧ r.2.toNat ≤ 0xBF) ∧ (b.toNat = 0xF0 → 0x90 ≤ r.1.toNat) ∧
      (b.toNat = 0xF4 → r.2.toNat ≤ 0x8F)) := by
  have hlt : ∀ n : UInt8, b < n ↔ b.toNat < n.toNat := fun _ => UInt8.lt_iff_toNat_lt
  have heq : ∀ n : UInt8, b = n ↔ b.toNat = n.toNat := fun _ => UInt8.toNat_inj.symm
  have hlow : trailing.1.toNat = 0x80 := rfl
  have hhigh : trailing.2.toNat = 0xBF := rfl
  simp only [continuation, hlt, heq, UInt8.reduceToNat] at h
  split at h
  next hone =>
    cases h
    exact .inl ⟨rfl, hone⟩
  split at h
  · cases h
  split at h
  next htwo =>
    cases h
    exact .inr (.inl ⟨rfl, by omega, htwo⟩)
  split at h
  next hlong =>
    cases h
    refine .inr (.inr (.inl ⟨_, rfl, ?_⟩))
    simp [hlong]
  split at h
  next hsurrogate =>
    cases h
    refine .inr (.inr (.inl ⟨_, rfl, ?_⟩))
    simp [hsurrogate]
  split at h
  next hthree =>
    cases h
    refine .inr (.inr (.inl ⟨_, rfl, ?_⟩))
    omega
  split at h
  next hlong =>
    cases h
    refine .inr (.inr (.inr ⟨_, rfl, ?_⟩))
    simp [hlong]
  split at h
  next hfour =>
    cases h
    refine .inr (.inr (.inr ⟨_, rfl, ?_⟩))
    omega
  split at h
  next hlast =>
    cases h
    refine .inr (.inr (.inr ⟨_, rfl, ?_⟩))
    simp [hlast]
  · cases h

/-! ### Whole texts -/

/-- A well-formed text whose first byte asks for more has these bytes, and is well formed behind
them. -/
theorem Valid.exists_of_continuation {b : UInt8} {t : Bytes} (h : Valid (b :: t))
    {range : ByteRange} {ranges : List ByteRange}
    (hlead : continuation b = some (range :: ranges)) :
    ∃ more rest, t = more ++ rest ∧ List.Forall₂ ByteRange.Holds (range :: ranges) more ∧
      Valid rest ∧ charsFrom .none (b :: t) =
        Char.ofNat (valueOf (b.toNat % 2 ^ (5 - ranges.length)) more) :: charsFrom .none rest := by
  rw [Valid, invalidAt?, invalidFrom, hlead] at h
  obtain ⟨more, rest, ht, hmore, hrest, hchars⟩ :=
    exists_of_invalidFrom_eq_none h (b.toNat % 2 ^ (5 - ranges.length))
  refine ⟨more, rest, ht, hmore, hrest, ?_⟩
  rw [← hchars, charsFrom]
  simp [step, Partway.none, begin, hlead, Nat.add_sub_add_right _ 1]

theorem Valid.exists_of_continuation_nil {b : UInt8} {t : Bytes} (h : Valid (b :: t))
    (hlead : continuation b = some []) :
    Valid t ∧ charsFrom .none (b :: t) = Char.ofNat b.toNat :: charsFrom .none t := by
  rw [Valid, invalidAt?, invalidFrom, hlead] at h
  refine ⟨invalidFrom_eq_none_congr h 0 0, ?_⟩
  simp [charsFrom, step, Partway.none, begin, hlead]

/-- A well-formed text starts with the encoding of the first character that it is shown as. -/
theorem Valid.exists_char {b : UInt8} {t : Bytes} (h : Valid (b :: t)) :
    ∃ c rest, b :: t = String.utf8EncodeChar c ++ rest ∧ Valid rest ∧
      charsFrom .none (b :: t) = c :: charsFrom .none rest := by
  cases hlead : continuation b with
  | none =>
    rw [Valid, invalidAt?, invalidFrom, hlead] at h
    cases h
  | some ranges =>
    obtain ⟨rfl, hb⟩ | ⟨rfl, hb⟩ | ⟨r, rfl, hb, hr, hlong, hsurrogate⟩ |
      ⟨r, rfl, hb, hr, hlong, hlast⟩ := continuation_cases hlead
    · obtain ⟨hrest, hchars⟩ := h.exists_of_continuation_nil hlead
      refine ⟨_, t, ?_, hrest, hchars⟩
      rw [utf8EncodeChar_one hb]
      rfl
    · obtain ⟨more, rest, rfl, hmore, hrest, hchars⟩ := h.exists_of_continuation hlead
      obtain _ | ⟨hc, _ | _⟩ := hmore
      rw [ByteRange.holds_iff] at hc
      exact ⟨_, rest, congrArg (· ++ rest) (utf8EncodeChar_two hb hc).symm, hrest, hchars⟩
    · obtain ⟨more, rest, rfl, hmore, hrest, hchars⟩ := h.exists_of_continuation hlead
      obtain _ | ⟨hc, _ | ⟨hd, _ | _⟩⟩ := hmore
      rw [ByteRange.holds_iff] at hc hd
      have hchar := utf8EncodeChar_three hb (by omega) (fun h => (hlong h).trans hc.1)
        (fun h => hc.2.trans (hsurrogate h)) hd
      exact ⟨_, rest, congrArg (· ++ rest) hchar.symm, hrest, hchars⟩
    · obtain ⟨more, rest, rfl, hmore, hrest, hchars⟩ := h.exists_of_continuation hlead
      obtain _ | ⟨hc, _ | ⟨hd, _ | ⟨he, _ | _⟩⟩⟩ := hmore
      rw [ByteRange.holds_iff] at hc hd he
      have hchar := utf8EncodeChar_four hb (by omega) (fun h => (hlong h).trans hc.1)
        (fun h => hc.2.trans (hlast h)) hd he
      exact ⟨_, rest, congrArg (· ++ rest) hchar.symm, hrest, hchars⟩

/-- What a well-formed text is shown as is the string that it encodes. -/
theorem ofString_decodeLossy {t : Bytes} (h : Valid t) : Bytes.ofString (decodeLossy t) = t := by
  rw [decodeLossy, Bytes.ofString_ofList, Bytes.ofChars]
  -- what follows the first character is shorter, as its encoding is not empty
  induction hn : t.length using Nat.strong_induction_on generalizing t with
  | _ n ih =>
    cases t with
    | nil => rfl
    | cons b t =>
      obtain ⟨c, rest, heq, hrest, hchars⟩ := h.exists_char
      have hlength := congrArg List.length heq
      have hpos := c.utf8Size_pos
      rw [List.length_append, String.length_utf8EncodeChar] at hlength
      rw [hchars, List.flatMap_cons, ih rest.length (by omega) hrest rfl, heq]

theorem Valid.exists_ofChars {t : Bytes} (h : Valid t) : ∃ cs, t = Bytes.ofChars cs :=
  ⟨(decodeLossy t).toList, by rw [← Bytes.ofString_eq_ofChars, ofString_decodeLossy h]⟩

end Utf8

end CallMigration
