import CallMigration.Proofs.Grammar

/-!
# Printed JSON as bytes

What the bytes of a printed value are: the digits of a number, a spelling between quotes, or items
and members with commas and line starts between them.

## Main Definitions

* `Json.digitBytes` — the digits of a number

## Main Statements

* `Json.isInteger_digitBytes`, `Json.decimal_digitBytes` — digits that are printed are a number's
  own
* `Json.ofChars_prettyChars_arr`, `Json.ofChars_prettyChars_obj` — a printed array or object, piece
  by piece
-/

namespace CallMigration

namespace Json

/-! ### Numbers -/

/-- The digits of a number, as bytes. -/
def digitBytes (n : Nat) : Bytes := Bytes.ofChars (Nat.toDigits 10 n)

theorem isDigit_of_mem_toDigits {c : Char} {n : Nat} (hc : c ∈ Nat.toDigits 10 n) :
    c.isDigit = true :=
  Nat.isDigit_of_mem_toDigits (by decide) (by decide) hc

theorem toNat_of_isDigit {c : Char} (hc : c.isDigit = true) :
    (UInt8.ofNat c.toNat).toNat = c.toNat ∧ 0x30 ≤ c.toNat ∧ c.toNat ≤ 0x39 := by
  have hrange : 0x30 ≤ c.toNat ∧ c.toNat ≤ 0x39 := by
    simpa [Char.isDigit, UInt32.le_iff_toNat_le] using hc
  exact ⟨UInt8.toNat_ofNat_of_lt' (Nat.lt_of_le_of_lt hrange.2 (by decide)), hrange⟩

theorem ofChars_of_isDigit {cs : List Char} (h : ∀ c ∈ cs, c.isDigit = true) :
    Bytes.ofChars cs = cs.map fun c => UInt8.ofNat c.toNat := by
  induction cs with
  | nil => rfl
  | cons c cs ih =>
    obtain ⟨hc, hcs⟩ := List.forall_mem_cons.1 h
    obtain ⟨-, -, hle⟩ := toNat_of_isDigit hc
    rw [Bytes.ofChars_cons_of_lt (Nat.lt_of_le_of_lt hle (by decide)), ih hcs, List.map_cons]

theorem digitBytes_eq_map (n : Nat) :
    digitBytes n = (Nat.toDigits 10 n).map fun c => UInt8.ofNat c.toNat :=
  ofChars_of_isDigit fun _ => isDigit_of_mem_toDigits

theorem decimal_map {cs : List Char} (h : ∀ c ∈ cs, c.isDigit = true) :
    decimal (cs.map fun c => UInt8.ofNat c.toNat) = Nat.ofDigitChars 10 cs 0 := by
  rw [decimal, List.foldl_map, Nat.ofDigitChars_eq_foldl]
  refine List.foldl_ext _ _ _ fun n c hc => ?_
  rw [digitOf, (toNat_of_isDigit (h c hc)).1]
  rfl

/-- The digits of a number stand for it. -/
theorem decimal_digitBytes (n : Nat) : decimal (digitBytes n) = n := by
  rw [digitBytes_eq_map, decimal_map fun _ => isDigit_of_mem_toDigits,
    Nat.ofDigitChars_ten_toDigits]

theorem head?_toDigits {n : Nat} (h : 0 < n) : (Nat.toDigits 10 n).head? ≠ some '0' := by
  induction n using Nat.strongRecOn with
  | _ n ih =>
    rw [Nat.toDigits_eq_if (by decide)]
    split
    next hlt =>
      have hdigits : ∀ m < 10, 0 < m → Nat.digitChar m ≠ '0' := by decide
      simpa using hdigits n hlt h
    next hge =>
      rw [List.head?_append_of_ne_nil _ Nat.toDigits_ne_nil]
      exact ih (n / 10) (by omega) (by omega)

theorem head?_digitBytes {n : Nat} (h : 0 < n) : (digitBytes n).head? ≠ some 0x30 := by
  intro hhead
  rw [digitBytes_eq_map, List.head?_map] at hhead
  obtain ⟨c, hc, hbyte⟩ := Option.map_eq_some_iff.1 hhead
  have hdigit := toNat_of_isDigit (isDigit_of_mem_toDigits (List.mem_of_mem_head? hc))
  have hzero : c = '0' := Char.toNat_inj.1 (by rw [← hdigit.1, hbyte]; rfl)
  exact head?_toDigits h (hzero ▸ hc)

theorem isDigits_digitBytes (n : Nat) : IsDigits (digitBytes n) := by
  rw [digitBytes_eq_map]
  refine ⟨by simp, fun b hb => ?_⟩
  obtain ⟨c, hc, rfl⟩ := List.mem_map.1 hb
  obtain ⟨heq, hrange⟩ := toNat_of_isDigit (isDigit_of_mem_toDigits hc)
  simp only [Bytes.isDigit, Bool.and_eq_true, decide_eq_true_iff, UInt8.le_iff_toNat_le, heq]
  exact hrange

theorem isInteger_digitBytes (n : Nat) : IsInteger (digitBytes n) := by
  rcases Nat.eq_zero_or_pos n with rfl | hn
  · exact .zero
  · exact .digits (isDigits_digitBytes n) (head?_digitBytes hn)

/-! ### Strings and white space -/

theorem ofChars_quotedChars (s : String) :
    Bytes.ofChars (quotedChars s) =
      quote :: (Bytes.ofChars (s.toList.flatMap escapedChar) ++ [quote]) := by
  rw [quotedChars, Bytes.ofChars_cons_of_lt (by decide), Bytes.ofChars_append]
  rfl

theorem blank_lineStart (level : Nat) : Blank (Bytes.ofChars (lineStart level)) := by
  have hspaces : ∀ n, Bytes.ofChars (List.replicate n ' ') = List.replicate n 0x20 := by
    intro n
    induction n with
    | zero => rfl
    | succ n ih => rw [List.replicate_succ, Bytes.ofChars_cons_of_lt (by decide), ih]; rfl
  rw [lineStart, Bytes.ofChars_cons_of_lt (by decide), hspaces]
  intro b hb
  rcases List.mem_cons.1 hb with rfl | hb
  · rfl
  · rw [List.eq_of_mem_replicate hb]
    rfl

/-! ### Printed numbers -/

theorem ofChars_prettyChars_ofNat (level n : Nat) :
    Bytes.ofChars (prettyChars level (.int (.ofNat n))) = digitBytes n := by
  rw [prettyChars, digitBytes]
  exact congrArg Bytes.ofChars Nat.toList_repr

theorem ofChars_prettyChars_negSucc (level n : Nat) :
    Bytes.ofChars (prettyChars level (.int (.negSucc n))) = minus :: digitBytes (n + 1) := by
  have hchars : (toString (Int.negSucc n)).toList = '-' :: Nat.toDigits 10 (n + 1) := by
    rw [show toString (Int.negSucc n) = "-" ++ (n + 1).repr from rfl, String.toList_append,
      Nat.toList_repr]
    rfl
  rw [prettyChars, hchars, digitBytes]
  rfl

/-! ### Arrays and objects -/

/-- A printed array, piece by piece. -/
theorem ofChars_prettyChars_arr (level : Nat) (item : Json) (items : List Json) :
    Bytes.ofChars (prettyChars level (.arr (item :: items))) =
      openBracket :: (Bytes.ofChars (lineStart (level + 1)) ++
        (Bytes.ofChars (prettyChars (level + 1) item) ++
          (Bytes.ofChars (prettyItems (level + 1) items) ++
            (Bytes.ofChars (lineStart level) ++ [closeBracket])))) := by
  simp only [prettyChars, Bytes.ofChars_append, Bytes.ofChars_cons, List.append_assoc,
    List.cons_append]
  rfl

theorem ofChars_prettyItems_cons (level : Nat) (item : Json) (items : List Json) :
    Bytes.ofChars (prettyItems level (item :: items)) =
      comma :: (Bytes.ofChars (lineStart level) ++ (Bytes.ofChars (prettyChars level item) ++
        Bytes.ofChars (prettyItems level items))) := by
  rw [prettyItems, ← Bytes.ofChars_append, ← Bytes.ofChars_append]
  rfl

/-- A printed object, piece by piece. -/
theorem ofChars_prettyChars_obj (level : Nat) (key : String) (value : Json)
    (members : List (String × Json)) :
    Bytes.ofChars (prettyChars level (.obj ((key, value) :: members))) =
      openBrace :: (Bytes.ofChars (lineStart (level + 1)) ++ (Bytes.ofChars (quotedChars key) ++
        colon :: (0x20 :: (Bytes.ofChars (prettyChars (level + 1) value) ++
          (Bytes.ofChars (prettyMembers (level + 1) members) ++
            (Bytes.ofChars (lineStart level) ++ [closeBrace])))))) := by
  simp only [prettyChars, Bytes.ofChars_append, Bytes.ofChars_cons, List.append_assoc,
    List.cons_append]
  rfl

theorem ofChars_prettyMembers_cons (level : Nat) (key : String) (value : Json)
    (members : List (String × Json)) :
    Bytes.ofChars (prettyMembers level ((key, value) :: members)) =
      comma :: (Bytes.ofChars (lineStart level) ++ (Bytes.ofChars (quotedChars key) ++
        colon :: (0x20 :: (Bytes.ofChars (prettyChars level value) ++
          Bytes.ofChars (prettyMembers level members))))) := by
  simp only [prettyMembers, Bytes.ofChars_append, Bytes.ofChars_cons, List.append_assoc]
  rfl

end Json

end CallMigration
