import Mathlib.Data.List.TakeWhile
import CallMigration.Proofs.Decoding
import CallMigration.Proofs.Validity

/-!
# Only JSON texts are decoded

Whatever is decoded is a text that stands for the value that comes out, with white space around it.
So the decoder computes what JSON texts stand for, and no text stands for two values.

## Main Definitions

* `Json.Completes` — what is left of a text ends the arrays and objects that are open

## Main Statements

* `Json.exists_of_readNumber` — what is read as a number is one
* `Json.exists_of_decodeString` — what is read as a string spells it
* `Json.decode_eq_some_iff` — the decoder and the grammar agree

## Design Notes

A reader of strings goes byte by byte, and a string is made of characters. Bytes that stand for
themselves are collected up to the next escape. As the whole string is well formed, and the bytes of
an escaped character are, so are the bytes in front of it and those behind it.
-/

namespace CallMigration

namespace Json

variable {t rest : Bytes}

/-! ### Lexemes -/

theorem Blank.append {u w : Bytes} (hu : Blank u) (hw : Blank w) : Blank (u ++ w) :=
  List.forall_mem_append.2 ⟨hu, hw⟩

/-- What is skipped is white space. -/
theorem exists_of_skipBlanks {s : Bytes} (h : skipBlanks t = s) : ∃ w, Blank w ∧ t = w ++ s := by
  refine ⟨t.takeWhile isBlank, fun b hb => List.mem_takeWhile_imp hb, ?_⟩
  rw [← h, skipBlanks, List.takeWhile_append_dropWhile]

theorem eq_append_of_readLiteral {letters : Bytes} (h : readLiteral letters t = .ok rest) :
    t = letters ++ rest := by
  fun_induction readLiteral letters t with
  | case1 t =>
    cases h
    rfl
  | case2 => cases h
  | case3 a letters t ih => rw [ih h, List.cons_append]
  | case4 => cases h

theorem exists_of_expectColon (h : expectColon t = .ok rest) :
    ∃ w, Blank w ∧ t = w ++ colon :: rest := by
  unfold expectColon at h
  split at h
  · cases h
  next b u hskip =>
    split_ifs at h with hb
    cases h
    exact exists_of_skipBlanks (hb ▸ hskip)

/-! ### Numbers -/

theorem isDigits_takeWhile (h : startsWithDigit t = true) :
    IsDigits (t.takeWhile Bytes.isDigit) := by
  cases t with
  | nil => cases h
  | cons b t =>
    have hb : Bytes.isDigit b = true := h
    refine ⟨?_, fun d hd => List.mem_takeWhile_imp hd⟩
    rw [List.takeWhile_cons_of_pos hb]
    exact List.cons_ne_nil _ _

theorem exists_of_readInteger {cut : Cause} {ds : Bytes}
    (h : readInteger cut t = .ok (ds, rest)) : t = ds ++ rest ∧ IsInteger ds := by
  cases t with
  | nil => cases h
  | cons b t =>
    rw [readInteger] at h
    split_ifs at h with hdigit hzero
    · cases h
      rw [hzero]
      exact ⟨rfl, .zero⟩
    · cases h
      rw [List.cons_append, List.takeWhile_append_dropWhile]
      refine ⟨rfl, .digits ⟨List.cons_ne_nil _ _, ?_⟩ fun h => hzero (Option.some.inj h)⟩
      exact List.forall_mem_cons.2 ⟨hdigit, fun d hd => List.mem_takeWhile_imp hd⟩

theorem exists_of_readFraction {cut : Cause} {f : Option Bytes}
    (h : readFraction cut t = .ok (f, rest)) : ∃ v, t = v ++ rest ∧ IsFraction v f := by
  cases t with
  | nil =>
    cases h
    exact ⟨[], rfl, .absent⟩
  | cons b t =>
    rw [readFraction] at h
    split_ifs at h with hdot hdigit
    · cases h
      exact ⟨[], rfl, .absent⟩
    · cases h
      refine ⟨_, ?_, .present (isDigits_takeWhile hdigit)⟩
      rw [List.cons_append, List.takeWhile_append_dropWhile, not_not.1 hdot]

theorem exists_of_readSign {negative : Bool} (h : readSign t = (negative, rest)) :
    ∃ v, t = v ++ rest ∧ IsSign v negative := by
  cases t with
  | nil =>
    cases h
    exact ⟨[], rfl, .absent⟩
  | cons b t =>
    rw [readSign] at h
    split_ifs at h with hminus hplus
    · cases h
      exact ⟨[b], rfl, hminus ▸ .minus⟩
    · cases h
      exact ⟨[b], rfl, hplus ▸ .plus⟩
    · cases h
      exact ⟨[], rfl, .absent⟩

theorem exists_of_readExponent {cut : Cause} {e : Option (Bool × Bytes)}
    (h : readExponent cut t = .ok (e, rest)) : ∃ v, t = v ++ rest ∧ IsExponent v e := by
  cases t with
  | nil =>
    cases h
    exact ⟨[], rfl, .absent⟩
  | cons b t =>
    rw [readExponent] at h
    split_ifs at h with hletter
    · cases h
      exact ⟨[], rfl, .absent⟩
    · split at h
      · cases h
      next negative d u hsign =>
        split_ifs at h with hdigit
        cases h
        obtain ⟨sign, rfl, hsigned⟩ := exists_of_readSign hsign
        have hds : IsDigits (d :: u.takeWhile Bytes.isDigit) :=
          ⟨List.cons_ne_nil _ _,
            List.forall_mem_cons.2 ⟨hdigit, fun d hd => List.mem_takeWhile_imp hd⟩⟩
        refine ⟨_, ?_, .present (Decidable.or_iff_not_not_and_not.2 hletter) hsigned hds⟩
        rw [List.cons_append, List.append_assoc, List.cons_append, List.takeWhile_append_dropWhile]

/-- What is read as a number is one. -/
theorem exists_of_readNumber {cut : Cause} {negative : Bool} {l : Literal}
    (h : readNumber cut negative t = .ok (l, rest)) :
    ∃ v, t = v ++ rest ∧ IsUnsigned negative v l := by
  unfold readNumber at h
  split at h
  · cases h
  next integer t' hinteger =>
    split at h
    · cases h
    next fraction t'' hfraction =>
      split at h
      · cases h
      next exponent t''' hexponent =>
        cases h
        obtain ⟨rfl, hi⟩ := exists_of_readInteger hinteger
        obtain ⟨v, rfl, hf⟩ := exists_of_readFraction hfraction
        obtain ⟨v', rfl, he⟩ := exists_of_readExponent hexponent
        exact ⟨_, by simp only [List.append_assoc], .mk hi hf he⟩

/-! ### Escapes -/

theorem hexDigit?_lt {b : UInt8} {n : Nat} (h : hexDigit? b = some n) : n < 16 := by
  simp only [hexDigit?, UInt8.le_iff_toNat_le, UInt8.reduceToNat] at h
  split_ifs at h with hdecimal hupper hlower
  all_goals
    cases h
    omega

/-- Four digits have no room for a number beyond the first 65536. -/
theorem FourDigits.lt {ds : Bytes} {n : Nat} (h : FourDigits ds n) : n < 0x10000 := by
  have hbound : ∀ (ds : Bytes) (v n : Nat),
      ds.foldlM (fun v b => (hexDigit? b).map (16 * v + ·)) v = some n →
        n < (v + 1) * 16 ^ ds.length := by
    intro ds
    induction ds with
    | nil =>
      intro v n hn
      cases hn
      simp
    | cons b ds ih =>
      intro v n hn
      rw [List.foldlM_cons] at hn
      obtain ⟨v', hv, hn⟩ := Option.bind_eq_some_iff.1 hn
      obtain ⟨d, hd, rfl⟩ := Option.map_eq_some_iff.1 hv
      have hlt := hexDigit?_lt hd
      calc n < (16 * v + d + 1) * 16 ^ ds.length := ih _ _ hn
        _ ≤ (v + 1) * 16 * 16 ^ ds.length := Nat.mul_le_mul_right _ (by omega)
        _ = (v + 1) * 16 ^ (b :: ds).length := by
          rw [List.length_cons, Nat.pow_succ', Nat.mul_assoc]
  simpa [h.length_eq] using hbound ds 0 n h.value

theorem exists_of_readFourHex {n : Nat} (h : readFourHex t = .ok (n, rest)) :
    ∃ ds, t = ds ++ rest ∧ FourDigits ds n := by
  unfold readFourHex at h
  split at h
  next a b c d t =>
    split at h
    next m hm =>
      cases h
      exact ⟨[a, b, c, d], rfl, rfl, hm⟩
    · cases h
  · cases h

theorem mem_escapeLetters_of_letterEscape? {b : UInt8} {c : Char}
    (h : letterEscape? b = some c) : (b, c) ∈ escapeLetters := by
  unfold letterEscape? at h
  split_ifs at h
  all_goals
    cases h
    subst b
    decide

theorem exists_of_readLowSurrogate {high : Nat} {c : Char}
    (h : readLowSurrogate high t = .ok (c, rest)) :
    ∃ ds low, t = backslash :: letterU :: (ds ++ rest) ∧ FourDigits ds low ∧
      isLowSurrogate low = true ∧ c = pairChar high low := by
  unfold readLowSurrogate at h
  split at h
  · cases h
  next b u =>
    split_ifs at h with hb
    split at h
    · cases h
    next b' u' =>
      split_ifs at h with hb'
      split at h
      · cases h
      next low t' hfour =>
        split_ifs at h with hlow
        simp only [Except.ok.injEq, Prod.mk.injEq] at h
        obtain ⟨hc, rfl⟩ := h
        obtain ⟨ds, rfl, hds⟩ := exists_of_readFourHex hfour
        exact ⟨ds, low, by rw [not_not.1 hb, not_not.1 hb'], hds, hlow, hc.symm⟩

/-- The two halves of a surrogate pair are those of one character. -/
theorem toNat_pairChar {high low : Nat} (hhigh : 0xD800 ≤ high ∧ high ≤ 0xDBFF)
    (hlow : 0xDC00 ≤ low ∧ low ≤ 0xDFFF) :
    (pairChar high low).toNat = 0x10000 + (high - 0xD800) * 0x400 + (low - 0xDC00) := by
  have hchar : (0x10000 + (high - 0xD800) * 0x400 + (low - 0xDC00)).isValidChar := by
    unfold Nat.isValidChar
    omega
  exact Utf8.val_ofNat hchar

theorem exists_of_readNumberedEscape {c : Char} (h : readNumberedEscape t = .ok (c, rest)) :
    ∃ u, t = u ++ rest ∧
      ∀ v cs, Spells v cs → Spells (backslash :: letterU :: (u ++ v)) (c :: cs) := by
  unfold readNumberedEscape at h
  split at h
  · cases h
  next n t' hfour =>
    obtain ⟨ds, rfl, hds⟩ := exists_of_readFourHex hfour
    split_ifs at h with hlow hhigh
    · obtain ⟨ds', low, rfl, hds', hlow', hc⟩ := exists_of_readLowSurrogate h
      simp only [isHighSurrogate, isLowSurrogate, Bool.and_eq_true, decide_eq_true_iff]
        at hhigh hlow'
      refine ⟨ds ++ backslash :: letterU :: ds', ?_, fun v cs hv => ?_⟩
      · rw [List.append_assoc]
        rfl
      · rw [List.append_assoc]
        exact .pair hds hds' hhigh hlow' (hc ▸ toNat_pairChar hhigh hlow') hv
    · cases h
      -- a number that is no surrogate is that of a character
      have hchar : n.isValidChar := by
        have := hds.lt
        simp only [isHighSurrogate, isLowSurrogate, Bool.and_eq_true, decide_eq_true_iff, not_and]
          at hlow hhigh
        unfold Nat.isValidChar
        omega
      have hnumber : (Char.ofNat n).toNat = n := Utf8.val_ofNat hchar
      exact ⟨ds, rfl, fun v cs hv => .number (hnumber.symm ▸ hds) hv⟩

/-- An escape that is read spells its character, in front of anything that is a spelling. -/
theorem exists_of_readEscape {c : Char} (h : readEscape t = .ok (c, rest)) :
    ∃ u, t = u ++ rest ∧ ∀ v cs, Spells v cs → Spells (backslash :: (u ++ v)) (c :: cs) := by
  unfold readEscape at h
  split at h
  · cases h
  next b u =>
    split at h
    next c' hletter =>
      cases h
      exact ⟨[b], rfl, fun v cs hv => .letter (mem_escapeLetters_of_letterEscape? hletter) hv⟩
    next hletter =>
      split_ifs at h with hb
      obtain ⟨u', rfl, hspells⟩ := exists_of_readNumberedEscape h
      exact ⟨b :: u', rfl, hb ▸ hspells⟩

/-! ### Strings -/

/-- Bytes without a meaning of their own. -/
def Plain (a : Bytes) : Prop := ∀ b ∈ a, b ≠ quote ∧ b ≠ backslash ∧ ¬ b < 0x20

theorem Plain.nil : Plain [] := fun _ h => absurd h List.not_mem_nil

/-- Characters whose bytes have no meaning of their own stand for themselves. -/
theorem spells_ofChars {cs : List Char} (h : Plain (Bytes.ofChars cs)) :
    Spells (Bytes.ofChars cs) cs := by
  induction cs with
  | nil => exact .nil
  | cons c cs ih =>
    rw [Bytes.ofChars_cons] at h ⊢
    obtain ⟨hc, hcs⟩ := List.forall_mem_append.1 h
    -- a character below 0x80 is its only byte
    have hbyte (hlt : c.toNat < 0x80) : UInt8.ofNat c.toNat ∈ String.utf8EncodeChar c := by
      rw [Bytes.utf8EncodeChar_of_lt hlt]
      exact List.mem_singleton_self _
    refine .plain ?_ ?_ ?_ (ih hcs)
    · rintro rfl
      exact (hc _ (hbyte (by decide))).1 rfl
    · rintro rfl
      exact (hc _ (hbyte (by decide))).2.1 rfl
    · by_contra hcontrol
      have hlt : c.toNat < 0x20 := Nat.not_le.1 hcontrol
      refine (hc _ (hbyte (by omega))).2.2 ?_
      rw [UInt8.lt_iff_toNat_lt, UInt8.toNat_ofNat_of_lt' (by simp only [UInt8.size]; omega)]
      exact hlt

/-- In the bytes of characters, those of one character stand between those of others. -/
theorem exists_of_ofChars_eq {cs : List Char} {a bs : Bytes} {c : Char}
    (h : Bytes.ofChars cs = a ++ (String.utf8EncodeChar c ++ bs)) :
    ∃ as ds, a = Bytes.ofChars as ∧ bs = Bytes.ofChars ds ∧ cs = as ++ c :: ds := by
  have hvalid := Utf8.valid_ofChars cs
  rw [h] at hvalid
  obtain ⟨ha, hbs⟩ := Utf8.Valid.of_append_encodeChar_append hvalid
  obtain ⟨as, rfl⟩ := ha.exists_ofChars
  obtain ⟨ds, rfl⟩ := hbs.exists_ofChars
  refine ⟨as, ds, rfl, rfl, ?_⟩
  rw [← Bytes.ofChars_inj, h, Bytes.ofChars_append, Bytes.ofChars_cons]

/-- What is read as the rest of a string is made of plain bytes and escapes. -/
theorem exists_of_readStringFrom {seen s : Bytes} (h : readStringFrom seen t = .ok (s, rest)) :
    ∃ u bs, t = u ++ quote :: rest ∧ s = seen.reverse ++ bs ∧
      ∀ a cs, Plain a → Bytes.ofChars cs = a ++ bs → Spells (a ++ u) cs := by
  fun_induction readStringFrom seen t with
  | case1 => cases h
  | case2 seen t =>
    cases h
    refine ⟨[], [], rfl, (List.append_nil _).symm, ?_⟩
    intro a cs ha hcs
    rw [List.append_nil] at hcs ⊢
    subst hcs
    exact spells_ofChars ha
  | case3 => cases h
  | case4 seen t c rest' hescape hquote ih =>
    obtain ⟨u, bs, rfl, rfl, hspells⟩ := ih h
    obtain ⟨e, rfl, hspelled⟩ := exists_of_readEscape hescape
    refine ⟨backslash :: (e ++ u), String.utf8EncodeChar c ++ bs, ?_, ?_, fun a cs ha hcs => ?_⟩
    · rw [List.cons_append, List.append_assoc]
    · rw [Bytes.ofString_toString, List.reverse_append, List.reverse_reverse, List.append_assoc]
    · obtain ⟨as, ds, rfl, rfl, rfl⟩ := exists_of_ofChars_eq hcs
      exact (spells_ofChars ha).append (hspelled u ds (hspells [] ds Plain.nil rfl))
  | case5 => cases h
  | case6 seen b t hquote hbackslash hcontrol ih =>
    obtain ⟨u, bs, rfl, rfl, hspells⟩ := ih h
    refine ⟨b :: u, b :: bs, rfl, by simp, fun a cs ha hcs => ?_⟩
    have hplain : Plain (a ++ [b]) :=
      List.forall_mem_append.2 ⟨ha, List.forall_mem_singleton.2 ⟨hquote, hbackslash, hcontrol⟩⟩
    have hmore := hspells (a ++ [b]) cs hplain (by rw [hcs, List.append_assoc]; rfl)
    rwa [List.append_assoc] at hmore

/-- What is read as a string spells it. -/
theorem exists_of_decodeString {s : String} (h : decodeString t = some (s, rest)) :
    ∃ u, t = u ++ quote :: rest ∧ Spells u s.toList := by
  unfold decodeString at h
  split at h
  · cases h
  next bytes rest' hread =>
    split at h
    · cases h
    next s' hs =>
      cases h
      obtain ⟨u, bs, rfl, rfl, hspells⟩ := exists_of_readStringFrom hread
      refine ⟨u, rfl, hspells [] s.toList Plain.nil ?_⟩
      rw [← Bytes.ofString_eq_ofChars, Bytes.ofString_of_toString? hs]
      rfl

/-! ### Items and members -/

theorem exists_of_nextItem_stop {first : Bool} (h : nextItem first t = .ok (.stop rest)) :
    ∃ w, Blank w ∧ t = w ++ closeBracket :: rest := by
  unfold nextItem at h
  split at h
  · cases h
  next b u hskip =>
    split_ifs at h with hclose hfirst hcomma
    · cases h
      exact exists_of_skipBlanks (hclose ▸ hskip)
    · cases h
    · split at h
      · cases h
      · split_ifs at h
        cases h

theorem exists_of_nextItem_start {first : Bool} (h : nextItem first t = .ok (.start rest)) :
    ∃ u w, Blank u ∧ Blank w ∧ t = u ++ (itemLead first ++ (w ++ rest)) := by
  unfold nextItem at h
  split at h
  · cases h
  next b u hskip =>
    obtain ⟨w, hw, rfl⟩ := exists_of_skipBlanks hskip
    split_ifs at h with hclose hfirst hcomma
    · cases h
    · cases h
      rw [hfirst]
      exact ⟨w, [], hw, Blank.nil, rfl⟩
    · split at h
      · cases h
      next c t' hskip' =>
        split_ifs at h with hclose'
        cases h
        obtain ⟨w', hw', rfl⟩ := exists_of_skipBlanks hskip'
        rw [Bool.eq_false_iff.2 hfirst, hcomma]
        exact ⟨w, w', hw, hw', rfl⟩

theorem exists_of_nextMember_stop {first : Bool}
    (h : Config.nextMember first t = .ok (.stop rest)) :
    ∃ w, Blank w ∧ t = w ++ closeBrace :: rest := by
  unfold Config.nextMember at h
  split at h
  · cases h
  next b u hskip =>
    split_ifs at h with hclose hfirst hquote hcomma
    · cases h
      exact exists_of_skipBlanks (hclose ▸ hskip)
    · cases h
    · split at h
      · cases h
      · split_ifs at h
        cases h

theorem exists_of_nextMember_key {first : Bool}
    (h : Config.nextMember first t = .ok (.key rest)) :
    ∃ u w, Blank u ∧ Blank w ∧ t = u ++ (itemLead first ++ (w ++ quote :: rest)) := by
  unfold Config.nextMember at h
  split at h
  · cases h
  next b u hskip =>
    obtain ⟨w, hw, rfl⟩ := exists_of_skipBlanks hskip
    split_ifs at h with hclose hfirst hquote hcomma
    · cases h
    · cases h
      rw [hfirst, hquote]
      exact ⟨w, [], hw, Blank.nil, rfl⟩
    · split at h
      · cases h
      next c t' hskip' =>
        split_ifs at h with hquote hclose'
        cases h
        obtain ⟨w', hw', rfl⟩ := exists_of_skipBlanks hskip'
        rw [Bool.eq_false_iff.2 hfirst, hcomma, hquote]
        exact ⟨w, w', hw, hw', rfl⟩

/-- White space in front of a key and behind a colon belongs to what stands in front of a value. -/
theorem IsKey.append_append {u k w : Bytes} {key : String} (hu : Blank u) (hk : IsKey k key)
    (hw : Blank w) : IsKey (u ++ (k ++ w)) key := by
  obtain ⟨hu', hk, hx, hy⟩ := hk
  simp only [List.append_assoc, List.cons_append]
  rw [← List.append_assoc]
  exact .mk (hu.append hu') hk hx (hy.append hw)

/-- An array ends, or it goes on with an item. -/
theorem goOnInArray_cases {items : List Json} {p : Progress}
    (h : goOnInArray items t = some (p, rest)) :
    (∃ w, Blank w ∧ t = w ++ closeBracket :: rest ∧ p = .behind (.arr items.reverse)) ∨
      ∃ u w, Blank u ∧ Blank w ∧ t = u ++ (itemLead items.isEmpty ++ (w ++ rest)) ∧
        p = .under (.array items) := by
  unfold goOnInArray at h
  split at h
  · cases h
  next rest' hstop =>
    cases h
    obtain ⟨w, hw, rfl⟩ := exists_of_nextItem_stop hstop
    exact .inl ⟨w, hw, rfl, rfl⟩
  next rest' hstart =>
    cases h
    obtain ⟨u, w, hu, hw, rfl⟩ := exists_of_nextItem_start hstart
    exact .inr ⟨u, w, hu, hw, rfl, rfl⟩

/-- An object ends, or it goes on with a member, of which the key and the colon are read. -/
theorem goOnInObject_cases {members : List (String × Json)} {p : Progress}
    (h : goOnInObject members t = some (p, rest)) :
    (∃ w, Blank w ∧ t = w ++ closeBrace :: rest ∧ p = .behind (.obj members.reverse)) ∨
      ∃ u k key, Blank u ∧ IsKey k key ∧ t = u ++ (itemLead members.isEmpty ++ (k ++ rest)) ∧
        p = .under (.object members key) := by
  unfold goOnInObject at h
  split at h
  · cases h
  next rest' hstop =>
    cases h
    obtain ⟨w, hw, rfl⟩ := exists_of_nextMember_stop hstop
    exact .inl ⟨w, hw, rfl, rfl⟩
  next t' hkey =>
    split at h
    · cases h
    next key t'' hstring =>
      split at h
      · cases h
      next rest' hcolon =>
        cases h
        obtain ⟨u, w, hu, hw, rfl⟩ := exists_of_nextMember_key hkey
        obtain ⟨k, rfl, hk⟩ := exists_of_decodeString hstring
        obtain ⟨x, hx, rfl⟩ := exists_of_expectColon hcolon
        refine .inr ⟨u, _, key, hu, .mk hw hk hx Blank.nil, ?_, rfl⟩
        simp only [List.append_assoc, List.cons_append, List.nil_append]

/-! ### Values -/

/-- What is left of a text behind a value ends the arrays and objects that are open, and with them
the value that is decoded. -/
inductive Completes : List Frame → Json → Bytes → Json → Prop
  | done {j : Json} {u : Bytes} (hu : Blank u) : Completes [] j u j
  | array {seen items : List Json} {stack : List Frame} {j k : Json} {t rest : Bytes}
      (ht : ItemsBehind t items)
      (hrest : Completes stack (.arr (seen.reverse ++ j :: items)) rest k) :
      Completes (.array seen :: stack) j (t ++ closeBracket :: rest) k
  | object {seen members : List (String × Json)} {key : String} {stack : List Frame} {j k : Json}
      {t rest : Bytes} (ht : MembersBehind t members)
      (hrest : Completes stack (.obj (seen.reverse ++ (key, j) :: members)) rest k) :
      Completes (.object seen key :: stack) j (t ++ closeBrace :: rest) k

/-- A text starts with a value, and what is left behind it completes what is decoded. -/
def CompletesValue (stack : List Frame) (t : Bytes) (k : Json) : Prop :=
  ∃ w v u j, t = w ++ (v ++ u) ∧ Blank w ∧ Denotes v j ∧ Completes stack j u k

/-- What is left of a text completes what is decoded, wherever the reader is. -/
def Progress.Completes (stack : List Frame) : Progress → Bytes → Json → Prop
  | behind j => Json.Completes stack j
  | under f => CompletesValue (f :: stack)

variable {stack : List Frame} {p : Progress} {k : Json}

theorem decodeInt_completes {negative : Bool} (h : decodeInt negative t = some (p, rest)) :
    ∃ v l n, t = v ++ rest ∧ IsUnsigned negative v l ∧ l.int? = some n ∧ p = .behind (.int n) := by
  unfold decodeInt at h
  split at h
  · cases h
  next l rest' hread =>
    split at h
    · cases h
    next n hn =>
      cases h
      obtain ⟨v, rfl, hv⟩ := exists_of_readNumber hread
      exact ⟨v, l, n, rfl, hv, hn, rfl⟩

/-- A value behind which everything is completed is put into its frame. -/
theorem completes_of_put {f : Frame} {j : Json} (h : f.put j t = some (p, rest))
    (hrest : p.Completes stack rest k) : Completes (f :: stack) j t k := by
  cases f with
  | array seen =>
    obtain ⟨w, hw, rfl, rfl⟩ | ⟨u, w, hu, hw, rfl, rfl⟩ := goOnInArray_cases h
    · rw [Progress.Completes, List.reverse_cons] at hrest
      exact .array (.last hw) hrest
    · obtain ⟨w', v, u', j', rfl, hw', hv, hcompletes⟩ := hrest
      obtain _ | ⟨ht, hrest⟩ := hcompletes
      rw [List.reverse_cons, List.append_assoc] at hrest
      have harray := Completes.array (.more hu (hw.append hw') hv ht) hrest
      simp only [List.append_assoc, List.cons_append] at harray
      exact harray
  | object seen key =>
    obtain ⟨w, hw, rfl, rfl⟩ | ⟨u, k, key', hu, hk, rfl, rfl⟩ := goOnInObject_cases h
    · rw [Progress.Completes, List.reverse_cons] at hrest
      exact .object (.last hw) hrest
    · obtain ⟨w', v, u', j', rfl, hw', hv, hcompletes⟩ := hrest
      obtain _ | _ | ⟨ht, hrest⟩ := hcompletes
      rw [List.reverse_cons, List.append_assoc] at hrest
      have hobject := Completes.object (.more hu (hk.append_append Blank.nil hw') hv ht) hrest
      simp only [List.append_assoc, List.cons_append] at hobject
      exact hobject

/-- An array starts a value when what is left behind its bracket is completed. -/
theorem completesValue_openBracket {w : Bytes} (hw : Blank w)
    (h : goOnInArray [] t = some (p, rest)) (hrest : p.Completes stack rest k) :
    CompletesValue stack (w ++ openBracket :: t) k := by
  obtain ⟨u, hu, rfl, rfl⟩ | ⟨u, w', hu, hw', rfl, rfl⟩ := goOnInArray_cases h
  · refine ⟨w, _, rest, _, ?_, hw, .emptyArray hu, hrest⟩
    simp only [List.append_assoc, List.cons_append, List.nil_append]
  · obtain ⟨w'', v, u', j, rfl, hw'', hv, hcompletes⟩ := hrest
    obtain _ | ⟨ht, hrest⟩ := hcompletes
    refine ⟨w, _, _, _, ?_, hw, .array (hu.append (hw'.append hw'')) hv ht, hrest⟩
    simp only [List.append_assoc, List.cons_append, List.nil_append]
    rfl

/-- An object starts a value when what is left behind its brace is completed. -/
theorem completesValue_openBrace {w : Bytes} (hw : Blank w)
    (h : goOnInObject [] t = some (p, rest)) (hrest : p.Completes stack rest k) :
    CompletesValue stack (w ++ openBrace :: t) k := by
  obtain ⟨u, hu, rfl, rfl⟩ | ⟨u, k', key, hu, hk, rfl, rfl⟩ := goOnInObject_cases h
  · refine ⟨w, _, rest, _, ?_, hw, .emptyObject hu, hrest⟩
    simp only [List.append_assoc, List.cons_append, List.nil_append]
  · obtain ⟨w', v, u', j, rfl, hw', hv, hcompletes⟩ := hrest
    obtain _ | _ | ⟨ht, hrest⟩ := hcompletes
    refine ⟨w, _, _, _, ?_, hw, .object (hk.append_append hu hw') hv ht, hrest⟩
    simp only [List.append_assoc, List.cons_append, List.nil_append]
    rfl

theorem completesValue_of_decodeWord {w letters : Bytes} {b : UInt8} {j : Json} (hw : Blank w)
    (hj : Denotes (b :: letters) j) (h : decodeWord j letters t = some (p, rest))
    (hrest : p.Completes stack rest k) : CompletesValue stack (w ++ b :: t) k := by
  unfold decodeWord at h
  split at h
  · cases h
  next rest' hread =>
    cases h
    rw [eq_append_of_readLiteral hread]
    exact ⟨w, b :: letters, rest, j, rfl, hw, hj, hrest⟩

/-- A text starts with a value when what is left where its first step leads is completed. -/
theorem completesValue_of_startValue (h : startValue t = some (p, rest))
    (hrest : p.Completes stack rest k) : CompletesValue stack t k := by
  unfold startValue at h
  split at h
  · cases h
  next b t' hskip =>
    obtain ⟨w, hw, rfl⟩ := exists_of_skipBlanks hskip
    split_ifs at h with hbracket hbrace hquote hn ht hf hminus
    · rw [hbracket]
      exact completesValue_openBracket hw h hrest
    · rw [hbrace]
      exact completesValue_openBrace hw h hrest
    · split at h
      · cases h
      next s rest' hstring =>
        cases h
        obtain ⟨u, rfl, hu⟩ := exists_of_decodeString hstring
        refine ⟨w, _, rest, _, ?_, hw, .string hu, hrest⟩
        rw [hquote, List.cons_append, List.append_assoc, List.singleton_append]
    · exact completesValue_of_decodeWord hw (hn ▸ .null) h hrest
    · exact completesValue_of_decodeWord hw (ht ▸ .true) h hrest
    · exact completesValue_of_decodeWord hw (hf ▸ .false) h hrest
    · obtain ⟨v, l, n, rfl, hv, hl, rfl⟩ := decodeInt_completes h
      rw [hminus]
      exact ⟨w, minus :: v, rest, _, rfl, hw, .negative hv hl, hrest⟩
    · obtain ⟨v, l, n, hcons, hv, hl, rfl⟩ := decodeInt_completes h
      rw [hcons]
      exact ⟨w, v, rest, _, rfl, hw, .number hv hl, hrest⟩

/-- What is decoded is completed by what is left, wherever the reader is. -/
theorem completes_of_decodeFrom (h : decodeFrom stack p t = some k) : p.Completes stack t k := by
  fun_induction decodeFrom stack p t with
  | case1 t j hblank =>
    cases h
    obtain ⟨w, hw, rfl⟩ := exists_of_skipBlanks hblank
    rw [List.append_nil]
    exact .done hw
  | case2 => cases h
  | case3 => cases h
  | case4 t j f stack p rest hput ih => exact completes_of_put hput (ih h)
  | case5 => cases h
  | case6 t f stack p rest hstart ih => exact completesValue_of_startValue hstart (ih h)

/-! ### Whole texts -/

/-- The decoder and the grammar agree: a text is decoded to a value exactly when it stands for it,
with white space around it. -/
theorem decode_eq_some_iff {j : Json} :
    decode t = some j ↔ ∃ w v u, t = w ++ (v ++ u) ∧ Blank w ∧ Denotes v j ∧ Blank u := by
  constructor
  · intro h
    unfold decode decodeValue at h
    split at h
    · cases h
    next p rest hstart =>
      obtain ⟨w, v, u, j', rfl, hw, hv, hcompletes⟩ :=
        completesValue_of_startValue hstart (completes_of_decodeFrom h)
      obtain ⟨hu⟩ := hcompletes
      exact ⟨w, v, u, rfl, hw, hv, hu⟩
  · rintro ⟨w, v, u, rfl, hw, hv, hu⟩
    exact decode_of_denotes hw hv hu

/-- A text stands for one value only. -/
theorem Denotes.unique {j j' : Json} (h : Denotes t j) (h' : Denotes t j') : j = j' := by
  have hdecode := decode_of_denotes Blank.nil h Blank.nil
  rw [decode_of_denotes Blank.nil h' Blank.nil] at hdecode
  exact (Option.some.inj hdecode).symm

end Json

end CallMigration
