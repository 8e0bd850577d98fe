import CallMigration.Config.Reader
import CallMigration.Proofs.Grammar

/-!
# Values of an expected shape

Strings, truth values, lists of strings and names of choices are read from every text that gives
them, up to what is behind the text.

## Main Definitions

* `Json.IsString`, `Json.IsBool`, `Json.IsStrings` — texts that give values of simple shapes

## Main Statements

* `Json.expectString_of_isString`, `Json.expectBool_of_isBool`, `Json.expectStrings_of_isStrings`,
  `Json.expectChoice_of_isString` — what is read from these texts
* `Json.nextItem_append_start`, `Json.nextItem_append_stop` — where an array goes on, and where it
  ends
* `Json.nextMember_append_key`, `Json.nextMember_append_stop` — the same for an object

## Design Notes

Only in front of the first item or member is there no comma. What leads to one is a text of its own,
`Json.itemLead`, so that first and later ones are spoken of alike.
-/

namespace CallMigration

namespace Json

variable {t rest w : Bytes}

/-! ### Strings -/

/-- The text gives a string. -/
inductive IsString (s : String) : Bytes → Prop
  | mk {t : Bytes} (ht : Spells t s.toList) : IsString s (quote :: (t ++ [quote]))

theorem readString_of_isString {s : String} {t : Bytes} (h : Spells t s.toList) (rest : Bytes) :
    readString (t ++ quote :: rest) = .ok (Bytes.ofString s, rest) := by
  rw [readString_of_spells h, Bytes.ofString_eq_ofChars]

theorem expectString_of_isString {s : String} {v : Bytes} (hw : Blank w) (hv : IsString s v)
    (rest : Bytes) : expectString (w ++ (v ++ rest)) = .ok (s, rest) := by
  obtain ⟨ht⟩ := hv
  rw [List.cons_append, List.append_assoc, List.singleton_append, expectString,
    skipBlanks_append_cons hw (by decide)]
  simp only [if_true, readString_of_isString ht, stringOf_ofString]

theorem expectChoice_of_isString {α : Type} {choices : List (String × α)} {a : α} {s : String}
    {v : Bytes} (hs : choices.lookup s = some a) (hw : Blank w) (hv : IsString s v)
    (rest : Bytes) : expectChoice choices (w ++ (v ++ rest)) = .ok (a, rest) := by
  obtain ⟨ht⟩ := hv
  rw [List.cons_append, List.append_assoc, List.singleton_append, expectChoice,
    skipBlanks_append_cons hw (by decide)]
  simp only [if_true, readChoice, readString_of_isString ht, stringOf_ofString, hs]

/-! ### Truth values -/

/-- The text gives a truth value. -/
inductive IsBool : Bool → Bytes → Prop
  | true : IsBool true (Bytes.ofString "true")
  | false : IsBool false (Bytes.ofString "false")

theorem expectBool_of_isBool {b : Bool} {v : Bytes} (hw : Blank w) (hv : IsBool b v)
    (rest : Bytes) : expectBool (w ++ (v ++ rest)) = .ok (b, rest) := by
  rw [expectBool, skipBlanks_append hw]
  cases hv <;> rfl

/-! ### Items and members -/

/-- An array ends behind white space. -/
theorem nextItem_append_stop (first : Bool) (hw : Blank w) (rest : Bytes) :
    nextItem first (w ++ closeBracket :: rest) = .ok (.stop rest) := by
  rw [nextItem, skipBlanks_append_cons hw (by decide)]
  simp only [if_true]

/-- White space in front of a comma or an end does not count. -/
theorem nextItem_append (first : Bool) (hw : Blank w) (t : Bytes) :
    nextItem first (w ++ t) = nextItem first t := by
  rw [nextItem, nextItem, skipBlanks_append hw]

/-- What leads to an item: nothing in front of the first one, a comma in front of the others. -/
def itemLead (first : Bool) : Bytes := if first then [] else [comma]

/-- An item starts behind what leads to it and white space. -/
theorem nextItem_append_start (first : Bool) (hw : Blank w) {b : UInt8} (hb : isBlank b = false)
    (hclose : b ≠ closeBracket) (t : Bytes) :
    nextItem first (itemLead first ++ (w ++ b :: t)) = .ok (.start (b :: t)) := by
  cases first with
  | true =>
    rw [itemLead, if_pos rfl, List.nil_append, nextItem, skipBlanks_append_cons hw hb]
    simp only [if_neg hclose, if_true]
  | false =>
    rw [itemLead, if_neg Bool.false_ne_true, List.singleton_append, nextItem,
      skipBlanks_cons (by decide)]
    simp only [show comma ≠ closeBracket by decide, if_false, Bool.false_eq_true, if_true,
      skipBlanks_append_cons hw hb, if_neg hclose]

/-- An object ends behind white space. -/
theorem nextMember_append_stop (first : Bool) (hw : Blank w) (rest : Bytes) :
    Config.nextMember first (w ++ closeBrace :: rest) = .ok (.stop rest) := by
  rw [Config.nextMember, skipBlanks_append_cons hw (by decide)]
  simp only [if_true]

/-- White space in front of a comma or an end does not count. -/
theorem nextMember_append (first : Bool) (hw : Blank w) (t : Bytes) :
    Config.nextMember first (w ++ t) = Config.nextMember first t := by
  rw [Config.nextMember, Config.nextMember, skipBlanks_append hw]

/-- A key starts behind what leads to a member and white space. -/
theorem nextMember_append_key (first : Bool) (hw : Blank w) (t : Bytes) :
    Config.nextMember first (itemLead first ++ (w ++ quote :: t)) = .ok (.key t) := by
  cases first with
  | true =>
    rw [itemLead, if_pos rfl, List.nil_append, Config.nextMember,
      skipBlanks_append_cons hw (by decide)]
    simp only [show quote ≠ closeBrace by decide, if_false, if_true]
  | false =>
    rw [itemLead, if_neg Bool.false_ne_true, List.singleton_append, Config.nextMember,
      skipBlanks_cons (by decide)]
    simp only [show comma ≠ closeBrace by decide, if_false, Bool.false_eq_true, if_true,
      skipBlanks_append_cons hw (show isBlank quote = false by decide)]

/-- A colon is read with the white space in front of it. -/
theorem expectColon_append (hw : Blank w) (t : Bytes) :
    expectColon (w ++ colon :: t) = .ok t := by
  rw [expectColon, skipBlanks_append_cons hw (by decide)]
  simp only [if_true]

/-! ### Lists of strings -/

/-- Strings with a comma between any two, and with white space around each. -/
inductive IsStringItems : List String → Bytes → Prop
  | one {s : String} {w v u : Bytes} (hw : Blank w) (hv : IsString s v) (hu : Blank u) :
      IsStringItems [s] (w ++ (v ++ u))
  | more {s : String} {ss : List String} {w v u t : Bytes} (hw : Blank w) (hv : IsString s v)
      (hu : Blank u) (ht : IsStringItems ss t) :
      IsStringItems (s :: ss) (w ++ (v ++ (u ++ comma :: t)))

/-- The text gives a list of strings. -/
inductive IsStrings : List String → Bytes → Prop
  | empty {w : Bytes} (hw : Blank w) : IsStrings [] (openBracket :: (w ++ [closeBracket]))
  | items {ss : List String} {t : Bytes} (ht : IsStringItems ss t) :
      IsStrings ss (openBracket :: (t ++ [closeBracket]))

theorem nextItem_start_of_isString (first : Bool) {u : Bytes} (hu : Blank u) (hw : Blank w)
    {s : String} {v : Bytes} (hv : IsString s v) (t : Bytes) :
    nextItem first (u ++ (itemLead first ++ (w ++ (v ++ t)))) = .ok (.start (v ++ t)) := by
  obtain ⟨-⟩ := hv
  rw [nextItem_append first hu]
  exact nextItem_append_start first hw (by decide) (by decide) _

theorem expectStringsFrom_of_stop {seen : List String}
    (h : nextItem seen.isEmpty t = .ok (.stop rest)) :
    expectStringsFrom seen t = .ok (seen.reverse, rest) := by
  rw [expectStringsFrom]
  split <;> simp_all

theorem expectStringsFrom_of_start {seen : List String} {u : Bytes} {s : String}
    (h : nextItem seen.isEmpty t = .ok (.start u)) (hs : expectString u = .ok (s, rest)) :
    expectStringsFrom seen t = expectStringsFrom (s :: seen) rest := by
  rw [expectStringsFrom]
  split <;> simp_all
  split <;> simp_all

/-- The items that are left are read behind what leads to them and white space. -/
theorem expectStringsFrom_of_isStringItems {ss : List String} (h : IsStringItems ss t)
    {seen : List String} {u : Bytes} (hu : Blank u) (rest : Bytes) :
    expectStringsFrom seen (u ++ (itemLead seen.isEmpty ++ (t ++ closeBracket :: rest))) =
      .ok (seen.reverse ++ ss, rest) := by
  induction h generalizing seen u with
  | one hw hv hu' =>
    have hstart := nextItem_start_of_isString seen.isEmpty hu hw hv
    rw [List.append_assoc, List.append_assoc,
      expectStringsFrom_of_start (hstart _) (expectString_of_isString (w := []) Blank.nil hv _),
      expectStringsFrom_of_stop (nextItem_append_stop _ hu' rest), List.reverse_cons]
  | more hw hv hu' ht ih =>
    have hstart := nextItem_start_of_isString seen.isEmpty hu hw hv
    rw [List.append_assoc, List.append_assoc, List.append_assoc, List.cons_append,
      expectStringsFrom_of_start (hstart _) (expectString_of_isString (w := []) Blank.nil hv _)]
    exact (ih hu').trans (by rw [List.reverse_cons, List.append_assoc, List.singleton_append])

/-- A list of strings is read up to the bracket behind it. -/
theorem expectStrings_of_isStrings {ss : List String} {v : Bytes} (hw : Blank w)
    (hv : IsStrings ss v) (rest : Bytes) : expectStrings (w ++ (v ++ rest)) = .ok (ss, rest) := by
  have hopen : ∀ t : Bytes, expectStrings (w ++ (openBracket :: (t ++ [closeBracket]) ++ rest)) =
      expectStringsFrom [] (t ++ closeBracket :: rest) := by
    intro t
    rw [List.cons_append, List.append_assoc, List.singleton_append, expectStrings,
      skipBlanks_append_cons hw (by decide)]
    simp only [if_true]
  cases hv with
  | empty hw' =>
    rw [hopen]
    exact expectStringsFrom_of_stop (nextItem_append_stop true hw' rest)
  | items ht =>
    rw [hopen]
    exact expectStringsFrom_of_isStringItems ht Blank.nil rest

end Json

end CallMigration
