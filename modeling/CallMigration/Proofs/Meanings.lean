import CallMigration.Proofs.Printing

/-!
# What JSON texts stand for

A JSON text without fractions stands for a value: a string for what it spells, a number for what its
digits are worth, an array or object for its items or members in their order. What the printer
writes stands for what was printed.

## Main Definitions

* `Json.Denotes` — a text is a JSON value and stands for a value

## Main Statements

* `Json.Denotes.isValue` — a text that stands for a value is one of the grammar
* `Json.denotes_pretty` — a printed value stands for itself

## Design Notes

Behind an item stands the end of the array or a comma and another item, and the same is true of
members. So items and members are described from the first one on, the way they are read and
printed.
-/

namespace CallMigration

namespace Json

/-! ### Texts and values -/

/-- The integer that a number is, unless it has a fraction or an exponent. -/
def Literal.int? (l : Literal) : Option Int :=
  if l.fraction.isSome ∨ l.exponent.isSome then none
  else some (if l.negative then -(decimal l.integer : Int) else decimal l.integer)

/-- What stands in front of the value of a member: its key and a colon. -/
inductive IsKey : Bytes → String → Prop
  | mk {w k x y : Bytes} {key : String} (hw : Blank w) (hk : Spells k key.toList) (hx : Blank x)
      (hy : Blank y) : IsKey (w ++ quote :: (k ++ quote :: (x ++ colon :: y))) key

mutual

/-- A text is a JSON value and stands for a value. -/
inductive Denotes : Bytes → Json → Prop
  | null : Denotes (Bytes.ofString "null") .null
  | true : Denotes (Bytes.ofString "true") (.bool true)
  | false : Denotes (Bytes.ofString "false") (.bool false)
  | number {t : Bytes} {l : Literal} {n : Int} (ht : IsUnsigned false t l)
      (hn : l.int? = some n) : Denotes t (.int n)
  | negative {t : Bytes} {l : Literal} {n : Int} (ht : IsUnsigned true t l)
      (hn : l.int? = some n) : Denotes (minus :: t) (.int n)
  | string {t : Bytes} {s : String} (ht : Spells t s.toList) :
      Denotes (quote :: (t ++ [quote])) (.str s)
  | emptyArray {w : Bytes} (hw : Blank w) : Denotes (openBracket :: (w ++ [closeBracket])) (.arr [])
  | array {w v t : Bytes} {j : Json} {items : List Json} (hw : Blank w) (hv : Denotes v j)
      (ht : ItemsBehind t items) :
      Denotes (openBracket :: (w ++ (v ++ (t ++ [closeBracket])))) (.arr (j :: items))
  | emptyObject {w : Bytes} (hw : Blank w) : Denotes (openBrace :: (w ++ [closeBrace])) (.obj [])
  | object {k v t : Bytes} {key : String} {j : Json} {members : List (String × Json)}
      (hk : IsKey k key) (hv : Denotes v j) (ht : MembersBehind t members) :
      Denotes (openBrace :: (k ++ (v ++ (t ++ [closeBrace])))) (.obj ((key, j) :: members))

/-- What stands behind an item, up to the end of the array, and the items in it. -/
inductive ItemsBehind : Bytes → List Json → Prop
  | last {w : Bytes} (hw : Blank w) : ItemsBehind w []
  | more {u w v t : Bytes} {j : Json} {items : List Json} (hu : Blank u) (hw : Blank w)
      (hv : Denotes v j) (ht : ItemsBehind t items) :
      ItemsBehind (u ++ comma :: (w ++ (v ++ t))) (j :: items)

/-- What stands behind a member, up to the end of the object, and the members in it. -/
inductive MembersBehind : Bytes → List (String × Json) → Prop
  | last {w : Bytes} (hw : Blank w) : MembersBehind w []
  | more {u k v t : Bytes} {key : String} {j : Json} {members : List (String × Json)}
      (hu : Blank u) (hk : IsKey k key) (hv : Denotes v j) (ht : MembersBehind t members) :
      MembersBehind (u ++ comma :: (k ++ (v ++ t))) ((key, j) :: members)

end

/-! ### The grammar -/

/-- A spelling can stand between quotes. -/
theorem Spells.isQuoted {t : Bytes} {cs : List Char} (h : Spells t cs) : IsQuoted t := by
  have hplain {a u : Bytes} (ha : ∀ b ∈ a, b ≠ quote ∧ b ≠ backslash ∧ ¬ b < 0x20)
      (hu : IsQuoted u) : IsQuoted (a ++ u) := by
    induction a with
    | nil => exact hu
    | cons b a ih =>
      obtain ⟨⟨hquote, hbackslash, hcontrol⟩, ha⟩ := List.forall_mem_cons.1 ha
      exact .plain hquote hbackslash (UInt8.not_lt.1 hcontrol) (ih ha)
  induction h with
  | nil => exact .nil
  | plain hquote hbackslash hcontrol _ ih =>
    exact hplain (fun b hb => plain_of_mem_utf8EncodeChar hquote hbackslash hcontrol hb) ih
  | letter hletter _ ih => exact .letter hletter ih
  | number hds _ ih => exact .number hds ih
  | pair hds hds' _ _ _ _ ih => exact .number hds (.number hds' ih)

theorem IsKey.isElement {k v u : Bytes} {key : String} (hk : IsKey k key) (hv : IsValue v)
    (hu : Blank u) : IsElement .object (k ++ (v ++ u)) := by
  obtain ⟨hw, hk, hx, hy⟩ := hk
  simp only [List.append_assoc, List.cons_append]
  exact .member hw hk.isQuoted hx hy hv hu

mutual

/-- A text that stands for a value is one of the grammar. -/
theorem Denotes.isValue {t : Bytes} {j : Json} : Denotes t j → IsValue t
  | .null => .literal (by decide)
  | .true => .literal (by decide)
  | .false => .literal (by decide)
  | .number ht _ => .number ht
  | .negative ht _ => .negative ht
  | .string ht => .string ht.isQuoted
  | .emptyArray hw => .empty .array hw
  | .array hw hv ht => by
    have harray := IsValue.container .array (ht.isElements hw hv.isValue)
    rwa [List.append_assoc, List.append_assoc] at harray
  | .emptyObject hw => .empty .object hw
  | .object hk hv ht => by
    have hobject := IsValue.container .object (ht.isElements hk hv.isValue)
    rwa [List.append_assoc, List.append_assoc] at hobject

/-- An item and what stands behind it are items of the grammar. -/
theorem ItemsBehind.isElements {t : Bytes} {items : List Json} : ItemsBehind t items →
    ∀ {w v : Bytes}, Blank w → IsValue v → IsElements .array (w ++ (v ++ t))
  | .last hu, _, _, hw, hv => .one (.item hw hv hu)
  | .more hu hw' hv' ht, w, v, hw, hv => by
    have hmore := IsElements.more (.item hw hv hu) (ht.isElements hw' hv'.isValue)
    rwa [List.append_assoc, List.append_assoc] at hmore

/-- A member and what stands behind it are members of the grammar. -/
theorem MembersBehind.isElements {t : Bytes} {members : List (String × Json)} :
    MembersBehind t members →
      ∀ {k v : Bytes} {key : String}, IsKey k key → IsValue v → IsElements .object (k ++ (v ++ t))
  | .last hu, _, _, _, hk, hv => .one (hk.isElement hv hu)
  | .more hu hk' hv' ht, k, v, _, hk, hv => by
    have hmore := IsElements.more (hk.isElement hv hu) (ht.isElements hk' hv'.isValue)
    rwa [List.append_assoc, List.append_assoc] at hmore

end

/-! ### Printed values -/

theorem int?_digitBytes (negative : Bool) (n : Nat) :
    Literal.int? ⟨negative, digitBytes n, none, none⟩ =
      some (if negative then -(n : Int) else n) := by
  simp only [Literal.int?, Option.isSome_none, Bool.false_eq_true, or_self, if_false,
    decimal_digitBytes]

theorem isUnsigned_digitBytes (negative : Bool) (n : Nat) :
    IsUnsigned negative (digitBytes n) ⟨negative, digitBytes n, none, none⟩ := by
  have h : IsUnsigned negative (digitBytes n ++ ([] ++ [])) ⟨negative, digitBytes n, none, none⟩ :=
    .mk (isInteger_digitBytes n) .absent .absent
  rwa [List.append_nil, List.append_nil] at h

/-- A printed key with what stands in front of it and behind its colon. -/
theorem isKey_quotedChars {w : Bytes} (hw : Blank w) (key : String) :
    IsKey (w ++ (Bytes.ofChars (quotedChars key) ++ [colon, 0x20])) key := by
  have hspace : Blank [0x20] := by simp [Blank, isBlank]
  rw [ofChars_quotedChars, List.cons_append, List.append_assoc, List.singleton_append]
  exact .mk hw (spells_escapedChars _) Blank.nil hspace

mutual

/-- A printed value stands for itself. -/
theorem denotes_prettyChars : ∀ (level : Nat) (j : Json),
    Denotes (Bytes.ofChars (prettyChars level j)) j
  | _, .null => .null
  | _, .bool true => .true
  | _, .bool false => .false
  | level, .int (.ofNat n) => by
    rw [ofChars_prettyChars_ofNat]
    exact .number (isUnsigned_digitBytes false n) (int?_digitBytes false n)
  | level, .int (.negSucc n) => by
    rw [ofChars_prettyChars_negSucc]
    exact .negative (isUnsigned_digitBytes true (n + 1)) (int?_digitBytes true (n + 1))
  | level, .str s => by
    rw [prettyChars, ofChars_quotedChars]
    exact .string (spells_escapedChars _)
  | _, .arr [] => .emptyArray Blank.nil
  | level, .arr (item :: items) => by
    rw [ofChars_prettyChars_arr, ← List.append_assoc (Bytes.ofChars (prettyItems _ items))]
    exact .array (blank_lineStart _) (denotes_prettyChars _ item)
      (itemsBehind_prettyItems _ items (blank_lineStart level))
  | _, .obj [] => .emptyObject Blank.nil
  | level, .obj ((key, value) :: members) => by
    have hobject := Denotes.object (isKey_quotedChars (blank_lineStart (level + 1)) key)
      (denotes_prettyChars (level + 1) value)
      (membersBehind_prettyMembers (level + 1) members (blank_lineStart level))
    rw [ofChars_prettyChars_obj]
    simpa only [List.append_assoc, List.cons_append, List.nil_append] using hobject

/-- Printed items with the start of a line behind them are items. -/
theorem itemsBehind_prettyItems : ∀ (level : Nat) (items : List Json) {w : Bytes}, Blank w →
    ItemsBehind (Bytes.ofChars (prettyItems level items) ++ w) items
  | _, [], _, hw => .last hw
  | level, item :: items, w, hw => by
    have hmore := ItemsBehind.more Blank.nil (blank_lineStart level)
      (denotes_prettyChars level item) (itemsBehind_prettyItems level items hw)
    rw [ofChars_prettyItems_cons]
    simpa only [List.append_assoc, List.cons_append, List.nil_append] using hmore

/-- Printed members with the start of a line behind them are members. -/
theorem membersBehind_prettyMembers : ∀ (level : Nat) (members : List (String × Json)) {w : Bytes},
    Blank w → MembersBehind (Bytes.ofChars (prettyMembers level members) ++ w) members
  | _, [], _, hw => .last hw
  | level, (key, value) :: members, w, hw => by
    have hmore := MembersBehind.more Blank.nil (isKey_quotedChars (blank_lineStart level) key)
      (denotes_prettyChars level value) (membersBehind_prettyMembers level members hw)
    rw [ofChars_prettyMembers_cons]
    simpa only [List.append_assoc, List.cons_append, List.nil_append] using hmore

end

/-- A printed value stands for itself. -/
theorem denotes_pretty (j : Json) : Denotes (Bytes.ofString j.pretty) j := by
  rw [pretty, Bytes.ofString_ofList]
  exact denotes_prettyChars 0 j

end Json

end CallMigration
