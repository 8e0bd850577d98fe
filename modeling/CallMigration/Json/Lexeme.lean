import CallMigration.Json.Fault

/-!
# Lexemes of JSON

White space, literals and strings at the start of a text. Each reader gives what it read and the
rest of the text.

## Main Definitions

* `Json.skipBlanks` — the text behind white space
* `Json.readLiteral` — the text behind the given letters
* `Json.readString` — the bytes that a string stands for, given the text behind its first quote
* `Json.skipString` — the text behind a string whose bytes do not matter

## Design Notes

A string that is only skipped may hold escapes that stand for no character, and a control
character in it is refused before it is read, not after; hence two readers.
-/

namespace CallMigration

namespace Json

/-! ### Bytes with a meaning -/

/-- The byte `"`. -/
def quote : UInt8 := 0x22

/-- The byte `\`. -/
def backslash : UInt8 := 0x5C

/-- The byte `u`. -/
def letterU : UInt8 := 0x75

/-- The byte `,`. -/
def comma : UInt8 := 0x2C

/-- The byte `:`. -/
def colon : UInt8 := 0x3A

/-- The byte `[`. -/
def openBracket : UInt8 := 0x5B

/-- The byte `]`. -/
def closeBracket : UInt8 := 0x5D

/-- The byte that opens an object. -/
def openBrace : UInt8 := 0x7B

/-- The byte that closes an object. -/
def closeBrace : UInt8 := 0x7D

/-- The byte `-`. -/
def minus : UInt8 := 0x2D

/-- White space between lexemes. -/
def isBlank (b : UInt8) : Bool := b == 0x20 || b == 0x0A || b == 0x09 || b == 0x0D

/-- The text behind white space. -/
def skipBlanks (t : Bytes) : Bytes := t.dropWhile isBlank

/-- The text behind the given letters. A wrong letter counts as read. -/
def readLiteral : (letters t : Bytes) → Except Fault Bytes
  | [], t => .ok t
  | _ :: _, [] => .error (.here [] .endInValue)
  | a :: letters, b :: t =>
    if a = b then readLiteral letters t else .error (.here t .expectedLiteral)

/-! ### Escapes -/

/-- The value of a hexadecimal digit of either case. -/
def hexDigit? (b : UInt8) : Option Nat :=
  if 0x30 ≤ b ∧ b ≤ 0x39 then some (b.toNat - 0x30)
  else if 0x41 ≤ b ∧ b ≤ 0x46 then some (b.toNat - 0x37)
  else if 0x61 ≤ b ∧ b ≤ 0x66 then some (b.toNat - 0x57)
  else none

/-- The number that digits stand for, each worth sixteen times the next. -/
def hexValue? (bs : List UInt8) : Option Nat :=
  bs.foldlM (fun value b => (hexDigit? b).map (16 * value + ·)) 0

/-- Four hexadecimal digits and the text behind them. They count as read also when they are no
digits; fewer than four bytes are read to the end. -/
def readFourHex : Bytes → Except Fault (Nat × Bytes)
  | a :: b :: c :: d :: t =>
    match hexValue? [a, b, c, d] with
    | some n => .ok (n, t)
    | none => .error (.here t .invalidEscape)
  | _ => .error (.here [] .endInString)

/-- The character that a letter behind a backslash stands for. -/
def letterEscape? (b : UInt8) : Option Char :=
  if b = quote then some '"'
  else if b = backslash then some '\\'
  else if b = Bytes.slash then some '/'
  else if b = 0x62 then some '\x08'
  else if b = 0x66 then some '\x0c'
  else if b = 0x6E then some '\n'
  else if b = 0x72 then some '\r'
  else if b = 0x74 then some '\t'
  else none

/-- Whether a number is the second half of a surrogate pair. -/
def isLowSurrogate (n : Nat) : Bool := 0xDC00 ≤ n && n ≤ 0xDFFF

/-- Whether a number is the first half of a surrogate pair. -/
def isHighSurrogate (n : Nat) : Bool := 0xD800 ≤ n && n ≤ 0xDBFF

/-- The character of a surrogate pair. -/
def pairChar (high low : Nat) : Char :=
  Char.ofNat (0x10000 + (high - 0xD800) * 0x400 + (low - 0xDC00))

/-- The second half of a surrogate pair, with the escape that introduces it. -/
def readLowSurrogate (high : Nat) : Bytes → Except Fault (Char × Bytes)
  | [] => .error (.here [] .endInString)
  | b :: t =>
    if b ≠ backslash then .error (.here t .unfinishedSurrogate)
    else
      match t with
      | [] => .error (.here [] .endInString)
      | c :: t =>
        if c ≠ letterU then .error (.here t .unfinishedSurrogate)
        else
          match readFourHex t with
          | .error e => .error e
          | .ok (low, t) =>
            if isLowSurrogate low then .ok (pairChar high low, t)
            else .error (.here t .loneSurrogate)

/-- The character that an escape by number stands for. -/
def readNumberedEscape (t : Bytes) : Except Fault (Char × Bytes) :=
  match readFourHex t with
  | .error e => .error e
  | .ok (n, t) =>
    if isLowSurrogate n then .error (.here t .loneSurrogate)
    else if isHighSurrogate n then readLowSurrogate n t
    else .ok (Char.ofNat n, t)

/-- The character that an escape stands for, given the text behind its backslash. -/
def readEscape : Bytes → Except Fault (Char × Bytes)
  | [] => .error (.here [] .endInString)
  | b :: t =>
    match letterEscape? b with
    | some c => .ok (c, t)
    | none => if b = letterU then readNumberedEscape t else .error (.here t .invalidEscape)

/-- The text behind an escape whose character does not matter. -/
def skipEscape : Bytes → Except Fault Bytes
  | [] => .error (.here [] .endInString)
  | b :: t =>
    match letterEscape? b with
    | some _ => .ok t
    | none =>
      if b = letterU then
        match readFourHex t with
        | .error e => .error e
        | .ok (_, t) => .ok t
      else .error (.here t .invalidEscape)

/-! ### What is left grows shorter -/

theorem length_skipBlanks_le (t : Bytes) : (skipBlanks t).length ≤ t.length :=
  (List.dropWhile_suffix _).length_le

theorem length_le_of_readLiteral {letters t rest : Bytes}
    (h : readLiteral letters t = .ok rest) : rest.length ≤ t.length := by
  fun_induction readLiteral letters t with
  | case1 t => simp_all
  | case2 => simp at h
  | case3 a letters t ih => have := ih h; simp; omega
  | case4 => simp at h

theorem length_le_of_readFourHex {t rest : Bytes} {n : Nat}
    (h : readFourHex t = .ok (n, rest)) : rest.length ≤ t.length := by
  unfold readFourHex at h
  split at h
  · split at h
    · simp only [Except.ok.injEq, Prod.mk.injEq] at h
      obtain ⟨_, rfl⟩ := h
      simp only [List.length_cons]
      omega
    · simp at h
  · simp at h

theorem length_le_of_readLowSurrogate {high : Nat} {t rest : Bytes} {c : Char}
    (h : readLowSurrogate high t = .ok (c, rest)) : rest.length ≤ t.length := by
  unfold readLowSurrogate at h
  grind [→ length_le_of_readFourHex]

theorem length_le_of_readNumberedEscape {t rest : Bytes} {c : Char}
    (h : readNumberedEscape t = .ok (c, rest)) : rest.length ≤ t.length := by
  unfold readNumberedEscape at h
  grind [→ length_le_of_readFourHex, → length_le_of_readLowSurrogate]

theorem length_le_of_readEscape {t rest : Bytes} {c : Char}
    (h : readEscape t = .ok (c, rest)) : rest.length ≤ t.length := by
  unfold readEscape at h
  grind [→ length_le_of_readNumberedEscape]

theorem length_le_of_skipEscape {t rest : Bytes}
    (h : skipEscape t = .ok rest) : rest.length ≤ t.length := by
  unfold skipEscape at h
  grind [→ length_le_of_readFourHex]

/-! ### Strings -/

/-- The rest of a string behind `seen`, which holds what it stands for so far, last byte first. -/
def readStringFrom (seen : Bytes) (t : Bytes) : Except Fault (Bytes × Bytes) :=
  match t with
  | [] => .error (.here [] .endInString)
  | b :: t =>
    if b = quote then .ok (seen.reverse, t)
    else if b = backslash then
      match _h : readEscape t with
      | .error e => .error e
      | .ok (c, rest) => readStringFrom ((Bytes.ofString c.toString).reverse ++ seen) rest
    else if b < 0x20 then .error (.here t .controlCharacter)
    else readStringFrom (b :: seen) t
  termination_by t.length
  decreasing_by
    · have := length_le_of_readEscape _h
      simp only [List.length_cons]
      omega
    · simp

/-- The bytes that a string stands for and the text behind it, given the text behind its first
quote. -/
def readString (t : Bytes) : Except Fault (Bytes × Bytes) := readStringFrom [] t

/-- The text behind a string, given the text behind its first quote. -/
def skipString (t : Bytes) : Except Fault Bytes :=
  match t with
  | [] => .error (.here [] .endInString)
  | b :: t =>
    if b = quote then .ok t
    else if b = backslash then
      match _h : skipEscape t with
      | .error e => .error e
      | .ok rest => skipString rest
    else if b < 0x20 then .error (.here (b :: t) .controlCharacter)
    else skipString t
  termination_by t.length
  decreasing_by
    · have := length_le_of_skipEscape _h
      simp only [List.length_cons]
      omega
    · simp

theorem length_lt_of_readStringFrom {seen t s rest : Bytes}
    (h : readStringFrom seen t = .ok (s, rest)) : rest.length < t.length := by
  fun_induction readStringFrom seen t with
  | case1 => simp at h
  | case2 => simp_all
  | case3 => simp at h
  | case4 seen t c rest' he _ ih =>
    have := ih h
    have := length_le_of_readEscape he
    simp only [List.length_cons]
    omega
  | case5 => simp at h
  | case6 seen b t _ _ _ ih => have := ih h; simp only [List.length_cons]; omega

theorem length_lt_of_readString {t s rest : Bytes}
    (h : readString t = .ok (s, rest)) : rest.length < t.length :=
  length_lt_of_readStringFrom h

theorem length_lt_of_skipString {t rest : Bytes}
    (h : skipString t = .ok rest) : rest.length < t.length := by
  fun_induction skipString t with
  | case1 => simp at h
  | case2 => simp_all
  | case3 => simp at h
  | case4 t rest' he _ ih =>
    have := ih h
    have := length_le_of_skipEscape he
    simp only [List.length_cons]
    omega
  | case5 => simp at h
  | case6 b t _ _ _ ih => have := ih h; simp only [List.length_cons]; omega

end Json

end CallMigration
