import CallMigration.Proofs.Expecting
import CallMigration.Proofs.Meanings

/-!
# Decoding JSON

A reader of whole JSON texts without fractions, for any value. A text that stands for a value is
read as this value. So what the printer writes is read back as what was printed, and no two values
are printed alike.

## Main Definitions

* `Json.Frame` — an array or object whose beginning was read
* `Json.decodeFrom` — a text read with frames on a stack
* `Json.decode` — the value of a whole text

## Main Statements

* `Json.decodeValue_of_denotes` — a text that stands for a value is read up to what is behind it
* `Json.decode_of_denotes` — the same for whole texts
* `Json.decode_pretty` — a printed text gives the value back

## Design Notes

Frames are kept on a stack, so each step reads one lexeme or two and the text grows shorter. A value
leaves the stack as it was, so what is said about a value is said for every stack. The induction is
over the derivation of the value, together with those of what stands behind an item or a member.
-/

namespace CallMigration

namespace Json

variable {t rest : Bytes}

/-! ### The decoder -/

/-- An array or object whose beginning was read, the last item or member first. Of the member whose
value comes next the key was read. -/
inductive Frame
  | array (items : List Json)
  | object (members : List (String × Json)) (key : String)

/-- How far a reader is: behind a value, or in front of a value that belongs to a frame. -/
inductive Progress
  | behind (j : Json)
  | under (f : Frame)

/-- A string, given the text behind its first quote. -/
def decodeString (t : Bytes) : Option (String × Bytes) :=
  match readString t with
  | .error _ => none
  | .ok (s, rest) =>
    match Bytes.toString? s with
    | none => none
    | some s => some (s, rest)

/-- Goes on in an array behind the given items. -/
def goOnInArray (items : List Json) (t : Bytes) : Option (Progress × Bytes) :=
  match nextItem items.isEmpty t with
  | .error _ => none
  | .ok (.stop rest) => some (.behind (.arr items.reverse), rest)
  | .ok (.start rest) => some (.under (.array items), rest)

/-- Goes on in an object behind the given members. -/
def goOnInObject (members : List (String × Json)) (t : Bytes) : Option (Progress × Bytes) :=
  match Config.nextMember members.isEmpty t with
  | .error _ => none
  | .ok (.stop rest) => some (.behind (.obj members.reverse), rest)
  | .ok (.key u) =>
    match decodeString u with
    | none => none
    | some (key, u) =>
      match expectColon u with
      | .error _ => none
      | .ok rest => some (.under (.object members key), rest)

/-- Puts a value into a frame and goes on there. -/
def Frame.put (j : Json) : Frame → Bytes → Option (Progress × Bytes)
  | array items => goOnInArray (j :: items)
  | object members key => goOnInObject ((key, j) :: members)

/-- An integer, given the text behind its sign. -/
def decodeInt (negative : Bool) (t : Bytes) : Option (Progress × Bytes) :=
  match readNumber .endInValue negative t with
  | .error _ => none
  | .ok (l, rest) =>
    match l.int? with
    | none => none
    | some n => some (.behind (.int n), rest)

/-- A value that is a word, given its other letters and the text behind the first. -/
def decodeWord (j : Json) (letters t : Bytes) : Option (Progress × Bytes) :=
  match readLiteral letters t with
  | .error _ => none
  | .ok rest => some (.behind j, rest)

/-- Reads a value, up to its first item or member if it has any. -/
def startValue (t : Bytes) : Option (Progress × Bytes) :=
  match skipBlanks t with
  | [] => none
  | b :: t =>
    if b = openBracket then goOnInArray [] t
    else if b = openBrace then goOnInObject [] t
    else if b = quote then
      match decodeString t with
      | none => none
      | some (s, rest) => some (.behind (.str s), rest)
    else if b = 0x6E then decodeWord null [0x75, 0x6C, 0x6C] t
    else if b = 0x74 then decodeWord (bool true) [0x72, 0x75, 0x65] t
    else if b = 0x66 then decodeWord (bool false) [0x61, 0x6C, 0x73, 0x65] t
    else if b = minus then decodeInt true t
    else decodeInt false (b :: t)

theorem length_lt_of_decodeString {s : String} (h : decodeString t = some (s, rest)) :
    rest.length < t.length := by
  unfold decodeString at h
  grind [→ length_lt_of_readString]

theorem length_le_of_goOnInArray {items : List Json} {p : Progress}
    (h : goOnInArray items t = some (p, rest)) : rest.length ≤ t.length := by
  unfold goOnInArray at h
  grind [→ length_le_of_nextItem, → length_le_of_nextItem_stop]

theorem length_le_of_goOnInObject {members : List (String × Json)} {p : Progress}
    (h : goOnInObject members t = some (p, rest)) : rest.length ≤ t.length := by
  unfold goOnInObject Config.nextMember at h
  grind [→ length_lt_of_decodeString, → length_le_of_expectColon, length_skipBlanks_le]

theorem length_lt_of_put {f : Frame} {j : Json} {p : Progress} (h : f.put j t = some (p, rest)) :
    rest.length < t.length := by
  have := length_skipBlanks_le t
  cases f with
  | array items =>
    unfold Frame.put goOnInArray nextItem at h
    grind [length_skipBlanks_le]
  | object members key =>
    unfold Frame.put goOnInObject Config.nextMember at h
    grind [→ length_lt_of_decodeString, → length_le_of_expectColon, length_skipBlanks_le]

theorem length_lt_of_decodeInt {negative : Bool} {p : Progress}
    (h : decodeInt negative t = some (p, rest)) : rest.length < t.length := by
  unfold decodeInt at h
  grind [→ length_lt_of_readNumber]

theorem length_le_of_decodeWord {j : Json} {letters : Bytes} {p : Progress}
    (h : decodeWord j letters t = some (p, rest)) : rest.length ≤ t.length := by
  unfold decodeWord at h
  grind [→ length_le_of_readLiteral]

theorem length_lt_of_startValue {p : Progress} (h : startValue t = some (p, rest)) :
    rest.length < t.length := by
  have := length_skipBlanks_le t
  unfold startValue at h
  grind [→ length_le_of_goOnInArray, → length_le_of_goOnInObject, → length_lt_of_decodeString,
    → length_le_of_decodeWord, → length_lt_of_decodeInt]

/-- Reads on from where a reader is, with frames on a stack. -/
def decodeFrom (stack : List Frame) (p : Progress) (t : Bytes) : Option Json :=
  match p, stack with
  | .behind j, [] => if skipBlanks t = [] then some j else none
  | .behind j, f :: stack =>
    match _h : f.put j t with
    | none => none
    | some (p, rest) => decodeFrom stack p rest
  | .under f, stack =>
    match _h : startValue t with
    | none => none
    | some (p, rest) => decodeFrom (f :: stack) p rest
  termination_by t.length
  decreasing_by
    · exact length_lt_of_put _h
    · exact length_lt_of_startValue _h

/-- Reads a value that belongs to the frames on a stack. -/
def decodeValue (stack : List Frame) (t : Bytes) : Option Json :=
  match startValue t with
  | none => none
  | some (p, rest) => decodeFrom stack p rest

/-- The value of a whole text. -/
def decode (t : Bytes) : Option Json := decodeValue [] t

/-! ### Steps of the decoder -/

variable {stack : List Frame} {p : Progress} {u v w : Bytes} {j : Json}

theorem decodeFrom_behind_cons {f : Frame} (h : f.put j t = some (p, rest)) :
    decodeFrom (f :: stack) (.behind j) t = decodeFrom stack p rest := by
  rw [decodeFrom]
  split <;> simp_all

theorem decodeFrom_under (f : Frame) (t : Bytes) :
    decodeFrom stack (.under f) t = decodeValue (f :: stack) t := by
  rw [decodeFrom, decodeValue]
  split <;> simp_all

theorem decodeValue_of_startValue (h : startValue t = some (p, rest)) :
    decodeValue stack t = decodeFrom stack p rest := by
  rw [decodeValue, h]

/-- White space in front of a value does not count. -/
theorem decodeValue_append (hw : Blank w) (t : Bytes) :
    decodeValue stack (w ++ t) = decodeValue stack t := by
  rw [decodeValue, decodeValue, startValue, startValue, skipBlanks_append hw]

/-! ### Scalars -/

theorem decodeString_of_spells {s : String} (h : Spells t s.toList) (rest : Bytes) :
    decodeString (t ++ quote :: rest) = some (s, rest) := by
  rw [decodeString, readString_of_isString h]
  simp only [Bytes.toString?_ofString]

theorem decodeInt_of_isUnsigned {negative : Bool} {l : Literal} {n : Int}
    (ht : IsUnsigned negative t l) (hn : l.int? = some n) (hrest : EndsNumber rest) :
    decodeInt negative (t ++ rest) = some (.behind (.int n), rest) := by
  rw [decodeInt, readNumber_of_isUnsigned ht hrest]
  simp only [hn]

/-- A value that starts with a digit is read as a number. -/
theorem startValue_of_isUnsigned {negative : Bool} {l : Literal} (ht : IsUnsigned negative t l)
    (rest : Bytes) : startValue (t ++ rest) = decodeInt false (t ++ rest) := by
  obtain ⟨b, u, rfl, hb⟩ := exists_digit_of_isUnsigned ht
  have hne {x : UInt8} (hx : Bytes.isDigit x = false) : b ≠ x := Bytes.ne_of_isDigit hb hx
  rw [List.cons_append, startValue, skipBlanks_cons (startsElement_of_isDigit hb).1]
  simp only [if_neg (hne (x := openBracket) rfl), if_neg (hne (x := openBrace) rfl),
    if_neg (hne (x := quote) rfl), if_neg (hne (x := 0x6E) rfl), if_neg (hne (x := 0x74) rfl),
    if_neg (hne (x := 0x66) rfl), if_neg (hne (x := minus) rfl)]

theorem startValue_quote {s : String} (h : decodeString t = some (s, rest)) :
    startValue (quote :: t) = some (.behind (.str s), rest) := by
  rw [startValue, skipBlanks_cons (by decide)]
  simp only [show quote ≠ openBracket by decide, show quote ≠ openBrace by decide, if_false,
    if_true, h]

/-! ### Items and members -/

/-- An array goes on with a value behind what leads to it. -/
theorem goOnInArray_of_isValue (items : List Json) (hw : Blank w) (hv : IsValue v) (t : Bytes) :
    goOnInArray items (itemLead items.isEmpty ++ (w ++ (v ++ t))) =
      some (.under (.array items), v ++ t) := by
  obtain ⟨b, u, rfl, hb⟩ := hv.exists_cons
  rw [List.cons_append, goOnInArray, nextItem_append_start _ hw hb.1 (hb.ne_close .array)]

/-- An object goes on with a key behind what leads to it. -/
theorem goOnInObject_of_isKey (members : List (String × Json)) {k : Bytes} {key : String}
    (hk : IsKey k key) (t : Bytes) :
    ∃ y, Blank y ∧ goOnInObject members (itemLead members.isEmpty ++ (k ++ t)) =
      some (.under (.object members key), y ++ t) := by
  obtain ⟨hw, hk, hx, hy⟩ := hk
  refine ⟨_, hy, ?_⟩
  simp only [List.append_assoc, List.cons_append]
  rw [goOnInObject, nextMember_append_key _ hw]
  simp only [decodeString_of_spells hk, expectColon_append hx]

theorem decodeValue_openBracket (hw : Blank w) (hv : IsValue v) (t : Bytes) :
    decodeValue stack (openBracket :: (w ++ (v ++ t))) =
      decodeValue (.array [] :: stack) (v ++ t) := by
  rw [← decodeFrom_under]
  exact decodeValue_of_startValue (goOnInArray_of_isValue [] hw hv t)

theorem decodeFrom_array_comma (seen : List Json) (j : Json) (hu : Blank u) (hw : Blank w)
    (hv : IsValue v) (t : Bytes) :
    decodeFrom (.array seen :: stack) (.behind j) (u ++ comma :: (w ++ (v ++ t))) =
      decodeValue (.array (j :: seen) :: stack) (v ++ t) := by
  rw [← decodeFrom_under]
  refine decodeFrom_behind_cons ?_
  rw [Frame.put, goOnInArray, nextItem_append _ hu]
  exact goOnInArray_of_isValue (j :: seen) hw hv t

theorem decodeFrom_array_close (seen : List Json) (j : Json) (hw : Blank w) (rest : Bytes) :
    decodeFrom (.array seen :: stack) (.behind j) (w ++ closeBracket :: rest) =
      decodeFrom stack (.behind (.arr (seen.reverse ++ [j]))) rest := by
  refine decodeFrom_behind_cons ?_
  rw [Frame.put, goOnInArray, nextItem_append_stop _ hw, List.reverse_cons]

theorem decodeValue_openBrace {k : Bytes} {key : String} (hk : IsKey k key) (t : Bytes) :
    decodeValue stack (openBrace :: (k ++ t)) = decodeValue (.object [] key :: stack) t := by
  obtain ⟨y, hy, hstart⟩ := goOnInObject_of_isKey [] hk t
  rw [← decodeValue_append hy t, ← decodeFrom_under]
  exact decodeValue_of_startValue hstart

theorem decodeFrom_object_comma (seen : List (String × Json)) (key : String) (j : Json)
    (hu : Blank u) {k : Bytes} {next : String} (hk : IsKey k next) (t : Bytes) :
    decodeFrom (.object seen key :: stack) (.behind j) (u ++ comma :: (k ++ t)) =
      decodeValue (.object ((key, j) :: seen) next :: stack) t := by
  obtain ⟨y, hy, hstart⟩ := goOnInObject_of_isKey ((key, j) :: seen) hk t
  rw [← decodeValue_append hy t, ← decodeFrom_under]
  refine decodeFrom_behind_cons ?_
  rw [Frame.put, goOnInObject, nextMember_append _ hu]
  exact hstart

theorem decodeFrom_object_close (seen : List (String × Json)) (key : String) (j : Json)
    (hw : Blank w) (rest : Bytes) :
    decodeFrom (.object seen key :: stack) (.behind j) (w ++ closeBrace :: rest) =
      decodeFrom stack (.behind (.obj (seen.reverse ++ [(key, j)]))) rest := by
  refine decodeFrom_behind_cons ?_
  rw [Frame.put, goOnInObject, nextMember_append_stop _ hw, List.reverse_cons]

/-! ### Values -/

theorem ItemsBehind.endsNumber {items : List Json} (h : ItemsBehind t items) (rest : Bytes) :
    EndsNumber (t ++ closeBracket :: rest) := by
  cases h with
  | last hw => exact endsNumber_append hw (endsNumber_close .array rest)
  | more hu hw hv ht =>
    rw [List.append_assoc, List.cons_append]
    exact endsNumber_append hu (endsNumber_comma _)

theorem MembersBehind.endsNumber {members : List (String × Json)} (h : MembersBehind t members)
    (rest : Bytes) : EndsNumber (t ++ closeBrace :: rest) := by
  cases h with
  | last hw => exact endsNumber_append hw (endsNumber_close .object rest)
  | more hu hk hv ht =>
    rw [List.append_assoc, List.cons_append]
    exact endsNumber_append hu (endsNumber_comma _)

mutual

/-- A text that stands for a value is read as this value, up to what is behind it. -/
theorem decodeValue_of_denotes {v : Bytes} {j : Json} : Denotes v j → ∀ (stack : List Frame)
    {rest : Bytes}, EndsNumber rest →
      decodeValue stack (v ++ rest) = decodeFrom stack (.behind j) rest
  | .null, _, _, _ => decodeValue_of_startValue rfl
  | .true, _, _, _ => decodeValue_of_startValue rfl
  | .false, _, _, _ => decodeValue_of_startValue rfl
  | .number ht hn, _, rest, hrest => by
    refine decodeValue_of_startValue ?_
    rw [startValue_of_isUnsigned ht, decodeInt_of_isUnsigned ht hn hrest]
  | .negative ht hn, _, rest, hrest =>
    decodeValue_of_startValue (decodeInt_of_isUnsigned ht hn hrest)
  | .string ht, _, rest, _ => by
    rw [List.cons_append, List.append_assoc]
    exact decodeValue_of_startValue (startValue_quote (decodeString_of_spells ht rest))
  | .emptyArray hw, _, rest, _ => by
    rw [List.cons_append, List.append_assoc]
    refine decodeValue_of_startValue ?_
    show goOnInArray [] _ = _
    rw [goOnInArray, List.singleton_append, nextItem_append_stop _ hw, List.reverse_nil]
  | .array hw hv ht, stack, rest, _ => by
    simp only [List.cons_append, List.append_assoc, List.nil_append]
    rw [decodeValue_openBracket hw hv.isValue, decodeValue_of_denotes hv _ (ht.endsNumber rest),
      decodeFrom_of_itemsBehind ht]
    rfl
  | .emptyObject hw, _, rest, _ => by
    rw [List.cons_append, List.append_assoc]
    refine decodeValue_of_startValue ?_
    show goOnInObject [] _ = _
    rw [goOnInObject, List.singleton_append, nextMember_append_stop _ hw, List.reverse_nil]
  | .object hk hv ht, stack, rest, _ => by
    simp only [List.cons_append, List.append_assoc, List.nil_append]
    rw [decodeValue_openBrace hk, decodeValue_of_denotes hv _ (ht.endsNumber rest),
      decodeFrom_of_membersBehind ht]
    rfl

/-- The items behind one are read with the end of their array. -/
theorem decodeFrom_of_itemsBehind {t : Bytes} {items : List Json} : ItemsBehind t items →
    ∀ (seen : List Json) (j : Json) (stack : List Frame) (rest : Bytes),
      decodeFrom (.array seen :: stack) (.behind j) (t ++ closeBracket :: rest) =
        decodeFrom stack (.behind (.arr (seen.reverse ++ j :: items))) rest
  | .last hw, seen, j, stack, rest => decodeFrom_array_close seen j hw rest
  | .more hu hw hv ht, seen, j, stack, rest => by
    simp only [List.cons_append, List.append_assoc]
    rw [decodeFrom_array_comma seen j hu hw hv.isValue,
      decodeValue_of_denotes hv _ (ht.endsNumber rest), decodeFrom_of_itemsBehind ht,
      List.reverse_cons, List.append_assoc, List.singleton_append]

/-- The members behind one are read with the end of their object. -/
theorem decodeFrom_of_membersBehind {t : Bytes} {members : List (String × Json)} :
    MembersBehind t members →
      ∀ (seen : List (String × Json)) (key : String) (j : Json) (stack : List Frame)
        (rest : Bytes),
        decodeFrom (.object seen key :: stack) (.behind j) (t ++ closeBrace :: rest) =
          decodeFrom stack (.behind (.obj (seen.reverse ++ (key, j) :: members))) rest
  | .last hw, seen, key, j, stack, rest => decodeFrom_object_close seen key j hw rest
  | .more hu hk hv ht, seen, key, j, stack, rest => by
    simp only [List.cons_append, List.append_assoc]
    rw [decodeFrom_object_comma seen key j hu hk,
      decodeValue_of_denotes hv _ (ht.endsNumber rest), decodeFrom_of_membersBehind ht,
      List.reverse_cons, List.append_assoc, List.singleton_append]

end

/-! ### Whole texts -/

/-- A text that stands for a value is decoded to this value, whatever white space is around it. -/
theorem decode_of_denotes (hw : Blank w) (hv : Denotes v j) (hu : Blank u) :
    decode (w ++ (v ++ u)) = some j := by
  rw [decode, decodeValue_append hw, decodeValue_of_denotes hv [] hu.endsNumber, decodeFrom,
    if_pos hu.skipBlanks_eq_nil]

/-- A printed value is read back, whatever white space follows. -/
theorem decode_pretty (j : Json) (hu : Blank u) : decode (Bytes.ofString j.pretty ++ u) = some j :=
  decode_of_denotes Blank.nil (denotes_pretty j) hu

/-- No two values are printed alike. -/
theorem pretty_injective {j k : Json} (h : j.pretty = k.pretty) : j = k := by
  have hj := decode_pretty j Blank.nil
  rw [h, decode_pretty k Blank.nil] at hj
  exact (Option.some.inj hj).symm

end Json

end CallMigration
