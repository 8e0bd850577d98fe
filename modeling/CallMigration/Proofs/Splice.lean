import Mathlib.Data.List.Infix
import CallMigration.Bytes

/-!
# Splicing texts

A splice puts another word in the place of as many bytes at each of some offsets, and keeps every
other byte in its place. It is what a replacement is measured against: the offsets say where
something was replaced, and nothing about how the places were found.

## Main Definitions

* `Bytes.splice` — a text with another word at given offsets
* `Bytes.ofChars` — the UTF-8 form of characters

## Main Statements

* `Bytes.splice_append` — a splice of a concatenation is made of splices of its parts
* `Bytes.isPrefix_of_isPrefix_append_cons` — a word does not reach over a byte that it does not hold
* `Bytes.mem_ofChars_iff` — the single bytes among those of characters are those below `0x80`

## Design Notes

The offsets ascend. Each of them counts from the start of the whole text, so the recursion carries
the offset at which the rest of the text starts.
-/

namespace CallMigration

namespace Bytes

/-! ### Behind a byte -/

theorem drop_append_cons (u : Bytes) (b : UInt8) (v : Bytes) :
    (u ++ b :: v).drop (u.length + 1) = v := by
  rw [List.drop_length_add_append]
  rfl

/-! ### Splices -/

/-- The text that starts at the offset `start`, with `new` for the `n` bytes at each offset. -/
def spliceFrom (n : Nat) (new : Bytes) (start : Nat) : List Nat → Bytes → Bytes
  | [], t => t
  | p :: ps, t =>
    t.take (p - start) ++ (new ++ spliceFrom n new (p + n) ps (t.drop (p + n - start)))

/-- The text with `new` for the `n` bytes at each of the ascending offsets. -/
def splice (n : Nat) (new : Bytes) (ps : List Nat) (t : Bytes) : Bytes := spliceFrom n new 0 ps t

/-- Counting all offsets from further ahead changes nothing. -/
theorem spliceFrom_shift (n : Nat) (new : Bytes) (k start : Nat) (ps : List Nat) (t : Bytes) :
    spliceFrom n new (k + start) (ps.map (k + ·)) t = spliceFrom n new start ps t := by
  induction ps generalizing start t with
  | nil => rfl
  | cons p ps ih =>
    rw [List.map_cons, spliceFrom, spliceFrom, Nat.add_sub_add_left, Nat.add_assoc k p n,
      Nat.add_sub_add_left, ih]

/-- Offsets that lie in `a`, followed by offsets behind it, splice `a` and what follows apart. -/
theorem spliceFrom_append (n : Nat) (new : Bytes) (start : Nat) {ps : List Nat} {a : Bytes}
    (b : Bytes) (qs : List Nat) (hsorted : ps.Pairwise (· < ·)) (hstart : ∀ p ∈ ps, start ≤ p + n)
    (hfit : ∀ p ∈ ps, p + n ≤ start + a.length) :
    spliceFrom n new start (ps ++ qs.map (start + a.length + ·)) (a ++ b) =
      spliceFrom n new start ps a ++ splice n new qs b := by
  induction ps generalizing start a with
  | nil =>
    cases qs with
    | nil => rfl
    | cons q qs =>
      have htake : start + a.length + q - start = a.length + q := by omega
      have hdrop : start + a.length + q + n - start = a.length + (q + n) := by omega
      rw [List.nil_append, List.map_cons, spliceFrom, spliceFrom, htake, hdrop,
        List.take_length_add_append, List.drop_length_add_append,
        Nat.add_assoc (start + a.length), spliceFrom_shift]
      simp only [splice, spliceFrom, Nat.sub_zero, List.append_assoc]
  | cons p ps ih =>
    obtain ⟨hp, hsorted⟩ := List.pairwise_cons.1 hsorted
    have hs := hstart p List.mem_cons_self
    have hf := hfit p List.mem_cons_self
    -- what is left of `a` behind the bytes at `p` ends at the same offset as `a`
    have hend : start + a.length = p + n + (a.drop (p + n - start)).length := by
      rw [List.length_drop]
      omega
    have ih := ih (p + n) (a := a.drop (p + n - start)) hsorted
      (fun q hq => by have := hp q hq; omega)
      (fun q hq => by rw [← hend]; exact hfit q (List.mem_cons_of_mem p hq))
    rw [List.cons_append, spliceFrom, spliceFrom, List.take_append_of_le_length (by omega),
      List.drop_append_of_le_length (by omega), hend, ih]
    simp only [List.append_assoc]

/-- A splice of a concatenation is made of splices of its parts, when no offset in the first part
reaches over its end. -/
theorem splice_append (n : Nat) (new : Bytes) {ps : List Nat} {a : Bytes} (b : Bytes)
    (qs : List Nat) (hsorted : ps.Pairwise (· < ·)) (hfit : ∀ p ∈ ps, p + n ≤ a.length) :
    splice n new (ps ++ qs.map (a.length + ·)) (a ++ b) =
      splice n new ps a ++ splice n new qs b := by
  have h := spliceFrom_append n new 0 b qs hsorted (fun _ _ => Nat.zero_le _)
    (by simpa using hfit)
  simpa [splice] using h

/-! ### Where a word stands -/

/-- A word that a text starts with ends before a byte that it does not hold. -/
theorem isPrefix_of_isPrefix_append_cons {w a b : Bytes} {c : UInt8} (h : w <+: a ++ c :: b)
    (hc : c ∉ w) : w <+: a := by
  rcases Nat.lt_or_ge a.length w.length with hlt | hge
  · have hac : a ++ [c] <+: a ++ c :: b := by simp
    have hlen : (a ++ [c]).length ≤ w.length := by simpa using Nat.succ_le_of_lt hlt
    have hw : a ++ [c] <+: w := List.prefix_of_prefix_length_le hac h hlen
    exact absurd (hw.subset (by simp)) hc
  · exact List.prefix_of_prefix_length_le h (List.prefix_append a (c :: b)) hge

/-- A text that starts with the word is cut there. -/
theorem cut?_append_self (w rest : Bytes) : cut? w (w ++ rest) = some ([], rest) := by
  cases hw : w ++ rest with
  | nil =>
    obtain ⟨rfl, rfl⟩ := List.append_eq_nil_iff.1 hw
    rfl
  | cons b t => rw [cut?_cons, after?_eq_some_iff.2 hw.symm]

/-- A word that cannot be cut at stands nowhere in the text. -/
theorem not_isPrefix_of_cut?_eq_none {w t : Bytes} (h : cut? w t = none) (p : Nat) :
    ¬ w <+: t.drop p := by
  induction t generalizing p with
  | nil =>
    unfold cut? cutFrom at h
    simp_all
  | cons b t ih =>
    rw [cut?_cons] at h
    cases hb : after? w (b :: t) with
    | some rest => simp [hb] at h
    | none =>
      have ht : cut? w t = none := by simpa [hb] using h
      cases p with
      | zero =>
        rintro ⟨rest, hrest⟩
        rw [List.drop_zero] at hrest
        rw [after?_eq_some_iff.2 hrest.symm] at hb
        cases hb
      | succ p => exact ih ht p

/-- A cut is made where the word stands for the first time. -/
theorem not_isPrefix_of_lt_cut? {w t before rest : Bytes} (h : cut? w t = some (before, rest))
    {p : Nat} (hp : p < before.length) : ¬ w <+: t.drop p := by
  induction t generalizing before p with
  | nil =>
    unfold cut? cutFrom at h
    split at h <;> simp_all
  | cons b t ih =>
    rw [cut?_cons] at h
    cases hb : after? w (b :: t) with
    | some r =>
      simp only [hb, Option.some.injEq, Prod.mk.injEq] at h
      rw [← h.1] at hp
      exact absurd hp (Nat.not_lt_zero p)
    | none =>
      simp only [hb, Option.map_eq_some_iff, Prod.mk.injEq] at h
      obtain ⟨q, hq, rfl, rfl⟩ := h
      cases p with
      | zero =>
        rintro ⟨rest, hrest⟩
        rw [List.drop_zero] at hrest
        rw [after?_eq_some_iff.2 hrest.symm] at hb
        cases hb
      | succ p => exact ih hq (Nat.lt_of_succ_lt_succ hp)

/-- A text in front in which the word never starts only moves the cut. -/
theorem cut?_append {w a : Bytes} (b : Bytes) (hnot : ∀ p < a.length, ¬ w <+: (a ++ b).drop p) :
    cut? w (a ++ b) = (cut? w b).map fun q => (a ++ q.1, q.2) := by
  induction a with
  | nil => simp
  | cons c a ih =>
    have hhead : after? w (c :: (a ++ b)) = none := by
      rw [Option.eq_none_iff_forall_ne_some]
      intro rest hrest
      exact hnot 0 (Nat.zero_lt_succ _) ⟨rest, (after?_eq_some_iff.1 hrest).symm⟩
    have htail := ih fun p hp => hnot (p + 1) (Nat.succ_lt_succ hp)
    rw [List.cons_append, cut?_cons, hhead, htail]
    simp [Function.comp_def]

/-! ### Single bytes of characters -/

/-- A character below `0x80` is encoded as a single byte. -/
theorem utf8EncodeChar_of_lt {c : Char} (hc : c.toNat < 0x80) :
    String.utf8EncodeChar c = [UInt8.ofNat c.toNat] := by
  rw [String.utf8EncodeChar]
  exact if_pos (Nat.le_of_lt_succ hc)

/-- Every byte of a longer encoding is at least `0x80`. -/
theorem le_toNat_of_mem_utf8EncodeChar {c : Char} {b : UInt8} (hc : 0x80 ≤ c.toNat)
    (h : b ∈ String.utf8EncodeChar c) : 0x80 ≤ b.toNat := by
  have hhigh : ∀ x k m : Nat, 0 < k → 0x80 ≤ m → m + k ≤ 0x100 →
      0x80 ≤ (UInt8.ofNat (x % k + m)).toNat := by
    intro x k m hk hm hmk
    have := Nat.mod_lt x hk
    rw [UInt8.toNat_ofNat_of_lt' (by simp only [UInt8.size]; omega)]
    omega
  revert h
  fun_cases String.utf8EncodeChar with
  | case1 v hv => exact absurd hv (Nat.not_le.2 hc)
  | case2 v =>
    intro h
    simp only [List.mem_cons, List.not_mem_nil, or_false] at h
    rcases h with rfl | rfl <;> exact hhigh _ _ _ (by decide) (by decide) (by decide)
  | case3 v =>
    intro h
    simp only [List.mem_cons, List.not_mem_nil, or_false] at h
    rcases h with rfl | rfl | rfl <;> exact hhigh _ _ _ (by decide) (by decide) (by decide)
  | case4 v =>
    intro h
    simp only [List.mem_cons, List.not_mem_nil, or_false] at h
    rcases h with rfl | rfl | rfl | rfl <;> exact hhigh _ _ _ (by decide) (by decide) (by decide)

/-- The byte of a character below `0x80` belongs to no other character. -/
theorem mem_utf8EncodeChar_iff {c d : Char} (hc : c.toNat < 0x80) :
    UInt8.ofNat c.toNat ∈ String.utf8EncodeChar d ↔ d = c := by
  have hsmall : (UInt8.ofNat c.toNat).toNat = c.toNat :=
    UInt8.toNat_ofNat_of_lt' (hc.trans (by decide))
  rcases Nat.lt_or_ge d.toNat 0x80 with hd | hd
  · rw [utf8EncodeChar_of_lt hd, List.mem_singleton, ← UInt8.toNat_inj, hsmall,
      UInt8.toNat_ofNat_of_lt' (hd.trans (by decide)), Char.toNat_inj, eq_comm]
  · constructor
    · intro h
      have := le_toNat_of_mem_utf8EncodeChar hd h
      omega
    · rintro rfl
      omega

/-! ### Characters as bytes -/

/-- The UTF-8 form of characters. -/
def ofChars (cs : List Char) : Bytes := cs.flatMap String.utf8EncodeChar

@[simp] theorem ofChars_nil : ofChars [] = [] := rfl

theorem ofChars_cons (c : Char) (cs : List Char) :
    ofChars (c :: cs) = String.utf8EncodeChar c ++ ofChars cs := rfl

@[simp] theorem ofChars_append (cs ds : List Char) :
    ofChars (cs ++ ds) = ofChars cs ++ ofChars ds :=
  List.flatMap_append

theorem ofChars_eq_nil_iff {cs : List Char} : ofChars cs = [] ↔ cs = [] := by
  cases cs <;> simp [ofChars_cons, String.utf8EncodeChar_ne_nil]

/-- A character below `0x80` is a byte of its own. -/
theorem ofChars_cons_of_lt {c : Char} (hc : c.toNat < 0x80) (cs : List Char) :
    ofChars (c :: cs) = UInt8.ofNat c.toNat :: ofChars cs := by
  rw [ofChars_cons, utf8EncodeChar_of_lt hc, List.singleton_append]

/-- Characters hold one below `0x80` exactly when their bytes hold that character's byte. -/
theorem mem_ofChars_iff {c : Char} (hc : c.toNat < 0x80) (cs : List Char) :
    UInt8.ofNat c.toNat ∈ ofChars cs ↔ c ∈ cs := by
  rw [ofChars, List.mem_flatMap]
  simp only [mem_utf8EncodeChar_iff hc, exists_eq_right]

/-! ### Strings as bytes -/

/-- The bytes of a string are those of its characters. -/
theorem ofString_eq_ofChars (s : String) : ofString s = ofChars s.toList := by
  rw [ofChars, ofString, String.toUTF8_eq_toByteArray, ← String.utf8Encode_toList,
    List.utf8Encode, List.toList_data_toByteArray]

@[simp] theorem ofString_ofList (cs : List Char) : ofString (String.ofList cs) = ofChars cs := by
  rw [ofString_eq_ofChars, String.toList_ofList]

theorem ofString_toString (c : Char) : ofString c.toString = String.utf8EncodeChar c := by
  rw [ofString_eq_ofChars]
  simp [ofChars]

theorem notMem_ofString {c : Char} (hc : c.toNat < 0x80) {s : String} (h : c ∉ s.toList) :
    UInt8.ofNat c.toNat ∉ ofString s := by
  rwa [ofString_eq_ofChars, mem_ofChars_iff hc]

@[simp] theorem ofString_append (s t : String) :
    ofString (s ++ t) = ofString s ++ ofString t := by
  simp [ofString]

theorem ofString_inj {s t : String} : ofString s = ofString t ↔ s = t := by
  rw [← String.toByteArray_inj, ByteArray.ext_iff, ← Array.toList_inj]
  rfl

/-- Characters can be read off their bytes. -/
theorem ofChars_inj {cs ds : List Char} : ofChars cs = ofChars ds ↔ cs = ds := by
  rw [← ofString_ofList, ← ofString_ofList, ofString_inj, String.ofList_inj]

end Bytes

end CallMigration
