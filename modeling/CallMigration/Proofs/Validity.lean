import CallMigration.Proofs.Encoding
import CallMigration.Proofs.Replacements

/-!
# Editing keeps texts well formed

A byte below `0x80` is a character of its own and stands within no other. A trigger starts and ends
with such bytes, so it cuts a well-formed text into well-formed ones, and the head that is put in
its place is the encoding of a string.

## Main Statements

* `Utf8.valid_append_cons_iff` — a text is well formed when it is so on both sides of such a byte
* `Utf8.valid_ofChars` — the bytes of characters are well formed
* `Utf8.Valid.of_append_encodeChar_append` — a well-formed text is so on both sides of a character
* `Rule.valid_text_apply` — in both modes, editing keeps a text well formed

## Design Notes

The machine is in the middle of a character when it awaits bytes. So what is said of two texts one
behind the other is said for any bytes that are awaited at the start of the first one.
-/

namespace CallMigration

namespace Utf8

/-! ### One text behind the other -/

/-- Well-formed texts one behind the other are well formed, also where the first one starts within a
character. -/
theorem invalidFrom_append {awaited : List ByteRange} {start offset : Nat} {a b : Bytes}
    (ha : invalidFrom awaited start offset a = none) (hb : Valid b) :
    invalidFrom awaited start offset (a ++ b) = none := by
  fun_induction invalidFrom awaited start offset a with
  | case1 awaited start offset hempty =>
    rw [List.isEmpty_iff] at hempty
    rw [hempty]
    exact invalidFrom_eq_none_congr hb start offset
  | case2 => cases ha
  | case3 start offset c a ranges hlead ih =>
    rw [List.cons_append, invalidFrom, hlead]
    exact ih ha
  | case4 => cases ha
  | case5 start offset c a range more hholds ih =>
    rw [List.cons_append, invalidFrom, if_pos hholds]
    exact ih ha
  | case6 => cases ha

theorem Valid.append {a b : Bytes} (ha : Valid a) (hb : Valid b) : Valid (a ++ b) :=
  invalidFrom_append ha hb

/-- What follows a well-formed text in one is well formed, also where the text starts within a
character. -/
theorem valid_of_invalidFrom_append {awaited : List ByteRange} {start offset : Nat} {a b : Bytes}
    (ha : invalidFrom awaited start offset a = none)
    (h : invalidFrom awaited start offset (a ++ b) = none) : Valid b := by
  fun_induction invalidFrom awaited start offset a with
  | case1 awaited start offset hempty =>
    rw [List.isEmpty_iff] at hempty
    rw [hempty] at h
    exact invalidFrom_eq_none_congr h 0 0
  | case2 => cases ha
  | case3 start offset c a ranges hlead ih =>
    rw [List.cons_append, invalidFrom, hlead] at h
    exact ih ha h
  | case4 => cases ha
  | case5 start offset c a range more hholds ih =>
    rw [List.cons_append, invalidFrom, if_pos hholds] at h
    exact ih ha h
  | case6 => cases ha

theorem Valid.of_append {a b : Bytes} (ha : Valid a) (h : Valid (a ++ b)) : Valid b :=
  valid_of_invalidFrom_append ha h

/-- Within a character, only bytes that continue one are awaited. -/
theorem trailing_holds_of_continuation {lead : UInt8} {ranges : List ByteRange}
    (h : continuation lead = some ranges) : ∀ r ∈ ranges, ∀ b, r.Holds b → trailing.Holds b := by
  have hnarrowed : ∀ r : ByteRange, 0x80 ≤ r.1.toNat ∧ r.2.toNat ≤ 0xBF →
      ∀ b, r.Holds b → trailing.Holds b := by
    intro r hr b hb
    rw [ByteRange.holds_iff] at hb ⊢
    exact ⟨hr.1.trans hb.1, hb.2.trans hr.2⟩
  obtain ⟨rfl, -⟩ | ⟨rfl, -⟩ | ⟨r, rfl, -, hr, -⟩ | ⟨r, rfl, -, hr, -⟩ := continuation_cases h
  · simp
  · simp
  · simpa using hnarrowed r hr
  · simpa using hnarrowed r hr

theorem continuation_of_lt {b : UInt8} (hb : b < 0x80) : continuation b = some [] := if_pos hb

theorem not_trailing_holds_of_lt {b : UInt8} (hb : b < 0x80) : ¬ trailing.Holds b :=
  fun hholds => UInt8.not_le.2 hb hholds.1

/-- A byte that continues no character ends a well-formed text, and another one starts with it. -/
theorem invalidFrom_append_cons {awaited : List ByteRange} {start offset : Nat} {x y : Bytes}
    {b : UInt8} (hb : ¬ trailing.Holds b)
    (hawaited : ∀ r ∈ awaited, ∀ c, r.Holds c → trailing.Holds c)
    (h : invalidFrom awaited start offset (x ++ b :: y) = none) :
    invalidFrom awaited start offset x = none ∧ Valid (b :: y) := by
  fun_induction invalidFrom awaited start offset x with
  | case1 awaited start offset hempty =>
    rw [List.isEmpty_iff] at hempty
    rw [hempty] at h
    exact ⟨rfl, invalidFrom_eq_none_congr h 0 0⟩
  | case2 awaited start offset hawaits =>
    -- the byte cannot be the one that is awaited
    obtain ⟨range, more, rfl⟩ := List.exists_cons_of_ne_nil (mt List.isEmpty_iff.2 hawaits)
    have hnot : ¬ range.Holds b := mt (hawaited range List.mem_cons_self b) hb
    rw [List.nil_append, invalidFrom, if_neg hnot] at h
    cases h
  | case3 start offset c x ranges hlead ih =>
    rw [List.cons_append, invalidFrom, hlead] at h
    exact ih (trailing_holds_of_continuation hlead) h
  | case4 start offset c x hlead =>
    rw [List.cons_append, invalidFrom, hlead] at h
    cases h
  | case5 start offset c x range more hholds ih =>
    rw [List.cons_append, invalidFrom, if_pos hholds] at h
    exact ih (fun r hr => hawaited r (List.mem_cons_of_mem range hr)) h
  | case6 start offset c x range more hnot =>
    rw [List.cons_append, invalidFrom, if_neg hnot] at h
    cases h

/-- Before such a byte a well-formed text can be divided. -/
theorem Valid.of_append_cons {x y : Bytes} {b : UInt8} (hb : ¬ trailing.Holds b)
    (h : Valid (x ++ b :: y)) : Valid x ∧ Valid (b :: y) :=
  invalidFrom_append_cons hb (fun _ hr => absurd hr List.not_mem_nil) h

theorem valid_cons_iff {t : Bytes} {b : UInt8} (hb : b < 0x80) : Valid (b :: t) ↔ Valid t := by
  rw [Valid, invalidAt?, invalidFrom, continuation_of_lt hb]
  exact ⟨fun h => invalidFrom_eq_none_congr h 0 0, fun h => invalidFrom_eq_none_congr h 0 1⟩

/-- A text is well formed when it is so on both sides of a byte that is a character of its own. -/
theorem valid_append_cons_iff {x y : Bytes} {b : UInt8} (hb : b < 0x80) :
    Valid (x ++ b :: y) ↔ Valid x ∧ Valid y := by
  rw [← valid_cons_iff (t := y) hb]
  exact ⟨Valid.of_append_cons (not_trailing_holds_of_lt hb), fun h => h.1.append h.2⟩

/-! ### Encodings -/

theorem continuation_of_two {b : UInt8} (hb : 0xC2 ≤ b.toNat ∧ b.toNat < 0xE0) :
    continuation b = some [trailing] := by
  simp only [continuation, UInt8.lt_iff_toNat_lt, ← UInt8.toNat_inj, UInt8.reduceToNat]
  rw [if_neg (by omega), if_neg (by omega), if_pos (by omega)]

/-- The second byte of three is narrowed for two first bytes. -/
theorem continuation_of_three {b : UInt8} (hb : 0xE0 ≤ b.toNat ∧ b.toNat < 0xF0) :
    ∃ r, continuation b = some [r, trailing] ∧
      ∀ c : UInt8, 0x80 ≤ c.toNat → c.toNat ≤ 0xBF → (b.toNat = 0xE0 → 0xA0 ≤ c.toNat) →
        (b.toNat = 0xED → c.toNat ≤ 0x9F) → r.Holds c := by
  simp only [continuation, UInt8.lt_iff_toNat_lt, ← UInt8.toNat_inj, UInt8.reduceToNat,
    ByteRange.holds_iff]
  rw [if_neg (by omega), if_neg (by omega), if_neg (by omega)]
  split
  · exact ⟨_, rfl, fun c hlow hhigh hlong _ => ⟨hlong (by assumption), hhigh⟩⟩
  · split
    · exact ⟨_, rfl, fun c hlow hhigh _ hsurrogate => ⟨hlow, hsurrogate (by assumption)⟩⟩
    · rw [if_pos (by omega)]
      exact ⟨_, rfl, fun c hlow hhigh _ _ => ⟨hlow, hhigh⟩⟩

/-- The second byte of four is narrowed for two first bytes, too. -/
theorem continuation_of_four {b : UInt8} (hb : 0xF0 ≤ b.toNat ∧ b.toNat < 0xF5) :
    ∃ r, continuation b = some [r, trailing, trailing] ∧
      ∀ c : UInt8, 0x80 ≤ c.toNat → c.toNat ≤ 0xBF → (b.toNat = 0xF0 → 0x90 ≤ c.toNat) →
        (b.toNat = 0xF4 → c.toNat ≤ 0x8F) → r.Holds c := by
  simp only [continuation, UInt8.lt_iff_toNat_lt, ← UInt8.toNat_inj, UInt8.reduceToNat,
    ByteRange.holds_iff]
  rw [if_neg (by omega), if_neg (by omega), if_neg (by omega), if_neg (by omega),
    if_neg (by omega), if_neg (by omega)]
  split
  · exact ⟨_, rfl, fun c hlow hhigh hlong _ => ⟨hlong (by assumption), hhigh⟩⟩
  · split
    · exact ⟨_, rfl, fun c hlow hhigh _ _ => ⟨hlow, hhigh⟩⟩
    · rw [if_pos (by omega)]
      exact ⟨_, rfl, fun c hlow hhigh _ hlast => ⟨hlow, hlast (by omega)⟩⟩

/-- Six bits of a character fit every byte behind the first that is not narrowed. -/
theorem holds_trailing {n : Nat} : trailing.Holds (UInt8.ofNat (n % 64 + 0x80)) := by
  rw [ByteRange.holds_iff, UInt8.toNat_ofNat_of_lt' (by simp only [UInt8.size]; omega)]
  simp only [trailing, UInt8.reduceToNat]
  omega

/-- The first byte of a character with the bytes that it asks for is well formed. -/
theorem valid_of_continuation {lead : UInt8} {ranges : List ByteRange} {more : Bytes}
    (hlead : continuation lead = some ranges) (h : List.Forall₂ ByteRange.Holds ranges more) :
    Valid (lead :: more) := by
  rw [Valid, invalidAt?, invalidFrom, hlead]
  have hmore : ∀ offset, invalidFrom ranges 0 offset more = none := by
    clear hlead
    induction h with
    | nil => exact fun offset => rfl
    | cons hholds h ih =>
      intro offset
      rw [invalidFrom, if_pos hholds]
      exact ih _
  exact hmore _

/-- The bytes of a character are well formed: none of them is longer than it has to be, and none is
a surrogate. -/
theorem valid_utf8EncodeChar (c : Char) : Valid (String.utf8EncodeChar c) := by
  have hchar : c.val.toNat.isValidChar := c.valid
  have hbyte : ∀ n < 256, (UInt8.ofNat n).toNat = n := fun n hn => UInt8.toNat_ofNat_of_lt' hn
  fun_cases String.utf8EncodeChar c with
  | case1 v hv =>
    have hlead : UInt8.ofNat v < 0x80 := by
      rw [UInt8.lt_iff_toNat_lt, hbyte v (by omega)]
      exact Nat.lt_succ_of_le hv
    exact valid_of_continuation (continuation_of_lt hlead) .nil
  | case2 v hone htwo =>
    have hlead := hbyte (v / 64 % 32 + 0xC0) (by omega)
    exact valid_of_continuation (continuation_of_two (by omega)) (.cons holds_trailing .nil)
  | case3 v hone htwo hthree =>
    have hlead := hbyte (v / 4096 % 16 + 0xE0) (by omega)
    have hsecond := hbyte (v / 64 % 64 + 0x80) (by omega)
    obtain ⟨r, hranges, hr⟩ :=
      continuation_of_three (b := UInt8.ofNat (v / 4096 % 16 + 0xE0)) (by omega)
    unfold Nat.isValidChar at hchar
    refine valid_of_continuation hranges (.cons (hr _ ?_ ?_ ?_ ?_) (.cons holds_trailing .nil))
    all_goals omega
  | case4 v hone htwo hthree =>
    have hlead := hbyte (v / 262144 % 8 + 0xF0) (by omega)
    have hsecond := hbyte (v / 4096 % 64 + 0x80) (by omega)
    unfold Nat.isValidChar at hchar
    obtain ⟨r, hranges, hr⟩ :=
      continuation_of_four (b := UInt8.ofNat (v / 262144 % 8 + 0xF0)) (by omega)
    refine valid_of_continuation hranges
      (.cons (hr _ ?_ ?_ ?_ ?_) (.cons holds_trailing (.cons holds_trailing .nil)))
    all_goals omega

/-- No byte that continues a character is the first one of a well-formed text. -/
theorem Valid.not_trailing_holds {b : UInt8} {t : Bytes} (h : Valid (b :: t)) :
    ¬ trailing.Holds b := by
  rw [ByteRange.holds_iff]
  simp only [trailing, UInt8.reduceToNat]
  rw [Valid, invalidAt?, invalidFrom] at h
  cases hlead : continuation b with
  | none =>
    rw [hlead] at h
    cases h
  | some ranges =>
    obtain ⟨-, hb⟩ | ⟨-, hb⟩ | ⟨-, -, hb, -⟩ | ⟨-, -, hb, -⟩ := continuation_cases hlead
    all_goals omega

/-- In a well-formed text that holds the bytes of a character, it is well formed on both sides of
them. -/
theorem Valid.of_append_encodeChar_append {a b : Bytes} {c : Char}
    (h : Valid (a ++ (String.utf8EncodeChar c ++ b))) : Valid a ∧ Valid b := by
  have hchar := valid_utf8EncodeChar c
  obtain ⟨lead, more, hcons⟩ := List.exists_cons_of_ne_nil (String.utf8EncodeChar_ne_nil (c := c))
  have hlead : ¬ trailing.Holds lead := (hcons ▸ hchar).not_trailing_holds
  rw [hcons, List.cons_append] at h
  obtain ⟨ha, hrest⟩ := h.of_append_cons hlead
  rw [← List.cons_append, ← hcons] at hrest
  exact ⟨ha, hchar.of_append hrest⟩

/-- The bytes of characters are well formed. -/
theorem valid_ofChars (cs : List Char) : Valid (Bytes.ofChars cs) := by
  induction cs with
  | nil => rfl
  | cons c cs ih =>
    rw [Bytes.ofChars_cons]
    exact (valid_utf8EncodeChar c).append ih

theorem valid_ofString (s : String) : Valid (Bytes.ofString s) := by
  rw [Bytes.ofString_eq_ofChars]
  exact valid_ofChars _

end Utf8

namespace Rule

variable {r : Rule}

/-! ### Editing -/

/-- A trigger that stands in a well-formed text cuts it into well-formed texts. -/
theorem valid_append_trigger_append {x y : Bytes} (h : Utf8.Valid (x ++ (r.trigger ++ y))) :
    Utf8.Valid x ∧ Utf8.Valid y := by
  rw [trigger, List.cons_append, Utf8.valid_append_cons_iff (by decide), List.append_assoc,
    List.singleton_append, Utf8.valid_append_cons_iff (by decide)] at h
  exact ⟨h.1, h.2.2⟩

/-- What an edit makes of a part leaves the whole text well formed. -/
theorem Rewrites.valid {t : Bytes} {e : Edit} (h : r.Rewrites t e) {x y : Bytes}
    (hvalid : Utf8.Valid (x ++ (t ++ y))) : Utf8.Valid (x ++ (e.text ++ y)) := by
  induction h generalizing x y with
  | kept t => exact hvalid
  | opened =>
    obtain ⟨hx, hy⟩ := valid_append_trigger_append hvalid
    exact hx.append ((Utf8.valid_ofString _).append hy)
  | append ha hb iha ihb =>
    rw [List.append_assoc] at hvalid
    have hfirst := iha hvalid
    rw [← List.append_assoc] at hfirst
    have hboth := ihb hfirst
    rwa [Edit.text_append, List.append_assoc, ← List.append_assoc]

/-- Editing keeps a text well formed. -/
theorem valid_text_apply (r : Rule) (mode : Mode) {t : Bytes} (h : Utf8.Valid t) :
    Utf8.Valid (r.apply mode t).text := by
  have hwhole := (rewrites_apply r mode t).valid (x := []) (y := [])
  rw [List.append_nil, List.append_nil] at hwhole
  exact hwhole h

end Rule

end CallMigration
