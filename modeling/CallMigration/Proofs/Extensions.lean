import Mathlib.Data.List.DropRight
import CallMigration.Config.Validation

/-!
# What validation makes of an extension

Validation takes away the white space around an extension, and then the dots in front of it. White
space behind these dots stays, so a valid extension may start with white space, and to validate it
again would change it.

## Main Definitions

* `Config.IsNormalExtension` — no white space around the extension and no dot in front of it
* `Config.StartsBlankBehindDots` — white space stands behind the dots in front

## Main Statements

* `Config.normalExtension_eq_self_iff` — which extensions stay as they are
* `Config.isNormalExtension_normalExtension_iff` — which extensions become normal
* `Config.validate_again_iff` — which configurations stay as they are when validated again
* `Config.validate_again_blank_behind_dot` — two that do not
-/

namespace CallMigration

namespace Text

variable {cs : List Char} {c : Char}

/-! ### Trimming -/

theorem trimChars_eq (cs : List Char) :
    trimChars cs = (cs.dropWhile isBlank).rdropWhile isBlank := rfl

theorem eq_false_of_mem_head?_dropWhile {p : Char → Bool} (h : c ∈ (cs.dropWhile p).head?) :
    p c = false := by
  have hnot := List.head?_dropWhile_not p cs
  rw [Option.mem_def.1 h] at hnot
  exact hnot

theorem dropWhile_eq_self {p : Char → Bool} (h : ∀ c ∈ cs.head?, p c = false) :
    cs.dropWhile p = cs := by
  cases cs with
  | nil => rfl
  | cons c cs => exact List.dropWhile_cons_of_neg (by simp [h c rfl])

theorem eq_false_of_mem_getLast?_trimChars (h : c ∈ (trimChars cs).getLast?) :
    isBlank c = false := by
  rw [trimChars, List.getLast?_reverse] at h
  exact eq_false_of_mem_head?_dropWhile h

theorem trimChars_eq_self (hhead : ∀ c ∈ cs.head?, isBlank c = false)
    (hlast : ∀ c ∈ cs.getLast?, isBlank c = false) : trimChars cs = cs := by
  have hback : cs.reverse.dropWhile isBlank = cs.reverse :=
    dropWhile_eq_self (by rwa [List.head?_reverse])
  rw [trimChars, dropWhile_eq_self hhead, hback, List.reverse_reverse]

end Text

namespace Config

variable {s : String} {c d : Config}

/-! ### Normal extensions -/

/-- No white space stands around the extension, and no dot in front of it. -/
structure IsNormalExtension (s : String) : Prop where
  blank_head : ∀ c ∈ s.toList.head?, Text.isBlank c = false
  dot_head : ∀ c ∈ s.toList.head?, (c == '.') = false
  blank_last : ∀ c ∈ s.toList.getLast?, Text.isBlank c = false

theorem toList_normalExtension (s : String) :
    (normalExtension s).toList = (Text.trimChars s.toList).dropWhile (· == '.') := by
  rw [normalExtension, String.toList_ofList]

/-- The extensions that stay as they are when they are made normal are the normal ones. -/
theorem normalExtension_eq_self_iff : normalExtension s = s ↔ IsNormalExtension s := by
  rw [← String.toList_inj, toList_normalExtension]
  constructor
  · intro hself
    -- each step leaves a part, and the last part is as long as the whole
    have hfront := List.dropWhile_suffix Text.isBlank (l := s.toList)
    have hback := List.rdropWhile_prefix Text.isBlank (s.toList.dropWhile Text.isBlank)
    have hdots := List.dropWhile_suffix (· == '.') (l := Text.trimChars s.toList)
    rw [hself] at hdots
    have hlength := hdots.length_le
    have hkept := hfront.eq_of_length_le (hlength.trans hback.length_le)
    have htrim : Text.trimChars s.toList = s.toList :=
      (hdots.eq_of_length_le (hback.length_le.trans hfront.length_le)).symm
    refine ⟨fun c hc => ?_, fun c hc => ?_, fun c hc => ?_⟩
    · rw [← hkept] at hc
      exact Text.eq_false_of_mem_head?_dropWhile hc
    · rw [← hself] at hc
      exact Text.eq_false_of_mem_head?_dropWhile (p := (· == '.')) hc
    · rw [← htrim] at hc
      exact Text.eq_false_of_mem_getLast?_trimChars hc
  · intro h
    rw [Text.trimChars_eq_self h.blank_head h.blank_last, Text.dropWhile_eq_self h.dot_head]

/-! ### What stands behind the dots -/

/-- White space stands behind dots that only white space precedes. -/
def StartsBlankBehindDots (s : String) : Prop :=
  ∃ before dots b rest, s.toList = before ++ (dots ++ b :: rest) ∧
    (∀ c ∈ before, Text.isBlank c = true) ∧ dots ≠ [] ∧ (∀ c ∈ dots, c = '.') ∧
    Text.isBlank b = true

theorem isBlank_dot : Text.isBlank '.' = false := by decide

/-- Without the white space and the dots in front, such an extension starts with white space. -/
theorem startsBlankBehindDots_iff :
    StartsBlankBehindDots s ↔
      ∃ b ∈ ((s.toList.dropWhile Text.isBlank).dropWhile (· == '.')).head?,
        Text.isBlank b = true := by
  constructor
  · rintro ⟨before, dots, b, rest, hs, hbefore, hne, hdots, hb⟩
    obtain ⟨c, dots, rfl⟩ := List.exists_cons_of_ne_nil hne
    obtain rfl := hdots c List.mem_cons_self
    have hdot : ∀ c ∈ '.' :: dots, (c == '.') = true := fun c hc => by simp [hdots c hc]
    have hnot : b ≠ '.' := by
      rintro rfl
      rw [isBlank_dot] at hb
      cases hb
    rw [hs, List.dropWhile_append_of_pos hbefore, List.cons_append,
      List.dropWhile_cons_of_neg (by simp [isBlank_dot]), ← List.cons_append,
      List.dropWhile_append_of_pos hdot]
    exact ⟨b, by simp [hnot], hb⟩
  · rintro ⟨b, hhead, hb⟩
    obtain ⟨rest, hrest⟩ := List.head?_eq_some_iff.1 hhead
    refine ⟨s.toList.takeWhile Text.isBlank,
      (s.toList.dropWhile Text.isBlank).takeWhile (· == '.'), b, rest, ?_, ?_, ?_, ?_, hb⟩
    · rw [← hrest, List.takeWhile_append_dropWhile, List.takeWhile_append_dropWhile]
    · exact fun c hc => List.mem_takeWhile_imp hc
    · -- without a dot the white space would have been dropped with what is in front
      intro hnil
      have hall := List.takeWhile_append_dropWhile (p := (· == '.'))
        (l := s.toList.dropWhile Text.isBlank)
      rw [hnil, hrest, List.nil_append] at hall
      have hmem : b ∈ (s.toList.dropWhile Text.isBlank).head? := by rw [← hall]; rfl
      rw [Text.eq_false_of_mem_head?_dropWhile hmem] at hb
      cases hb
    · exact fun c hc => beq_iff_eq.1 (List.mem_takeWhile_imp (p := (· == '.')) hc)

/-- What is left of an extension starts like what stands behind the dots. -/
theorem head?_normalExtension (hne : normalExtension s ≠ "") :
    (normalExtension s).toList.head? =
      ((s.toList.dropWhile Text.isBlank).dropWhile (· == '.')).head? := by
  obtain ⟨after, hafter⟩ := List.rdropWhile_prefix Text.isBlank (s.toList.dropWhile Text.isBlank)
  have hleft : (Text.trimChars s.toList).dropWhile (· == '.') ≠ [] := by
    rwa [← toList_normalExtension, Ne, String.toList_eq_nil_iff]
  rw [toList_normalExtension, ← hafter, ← Text.trimChars_eq, List.dropWhile_append,
    if_neg (by simpa using hleft), List.head?_append_of_ne_nil _ hleft]

/-- An extension becomes normal unless white space stands behind the dots in front of it. -/
theorem isNormalExtension_normalExtension_iff (hne : normalExtension s ≠ "") :
    IsNormalExtension (normalExtension s) ↔ ¬ StartsBlankBehindDots s := by
  rw [startsBlankBehindDots_iff, ← head?_normalExtension hne]
  constructor
  · rintro h ⟨b, hb, hblank⟩
    rw [h.blank_head b hb] at hblank
    cases hblank
  · intro hnot
    refine ⟨fun c hc => ?_, fun c hc => ?_, fun c hc => ?_⟩
    · exact Bool.eq_false_iff.2 fun hblank => hnot ⟨c, hc, hblank⟩
    · rw [toList_normalExtension] at hc
      exact Text.eq_false_of_mem_head?_dropWhile (p := (· == '.')) hc
    · -- the dots are taken away in front, so the last character is the one of the trimmed text
      rw [toList_normalExtension] at hc
      obtain ⟨dots, hdots⟩ :=
        List.dropWhile_suffix (· == '.') (l := Text.trimChars s.toList)
      have hlast : c ∈ (Text.trimChars s.toList).getLast? := by
        rw [← hdots]
        exact List.mem_getLast?_append_of_mem_getLast? hc
      exact Text.eq_false_of_mem_getLast?_trimChars hlast

/-! ### Valid configurations -/

theorem check_eq_ok_iff :
    c.check = .ok d ↔
      normalExtension c.extension ≠ "" ∧ isBlank c.root = false ∧
        (∀ p ∈ c.exclude, isBlank p = false) ∧
        d = { c with extension := normalExtension c.extension } := by
  unfold check
  by_cases hextension : normalExtension c.extension = ""
  · rw [if_pos hextension]
    exact iff_of_false (by simp) fun h => h.1 hextension
  rw [if_neg hextension]
  by_cases hroot : isBlank c.root = true
  · rw [if_pos hroot]
    exact iff_of_false (by simp) fun h => Bool.eq_false_iff.1 h.2.1 hroot
  rw [if_neg hroot]
  cases hfind : c.exclude.find? isBlank with
  | some p =>
    have hmem := List.mem_of_find?_eq_some hfind
    exact iff_of_false (by simp) fun h =>
      Bool.eq_false_iff.1 (h.2.2.1 p hmem) (List.find?_some hfind)
  | none =>
    have hexclude := List.find?_eq_none.1 hfind
    constructor
    · intro h
      exact ⟨hextension, Bool.eq_false_iff.2 hroot,
        fun p hp => Bool.eq_false_iff.2 (hexclude p hp), (Except.ok.inj h).symm⟩
    · rintro ⟨-, -, -, rfl⟩
      rfl

theorem validate_eq_ok_iff : c.validate = .ok d ↔ c.check = .ok d := by
  unfold validate
  cases c.check <;> simp

/-- To validate a valid configuration again changes nothing exactly when its extension is normal. -/
theorem validate_eq_ok_self_iff (h : c.validate = .ok d) :
    d.validate = .ok d ↔ IsNormalExtension d.extension := by
  obtain ⟨hextension, hroot, hexclude, hd⟩ := check_eq_ok_iff.1 (validate_eq_ok_iff.1 h)
  rw [← normalExtension_eq_self_iff, validate_eq_ok_iff, check_eq_ok_iff]
  constructor
  · rintro ⟨-, -, -, hself⟩
    exact (congrArg Config.extension hself).symm
  · intro hself
    rw [hself]
    refine ⟨?_, ?_, ?_, rfl⟩ <;> rw [hd] <;> assumption

/-- A valid configuration is accepted again and stays as it is exactly when no white space stood
behind the dots in front of its extension as it was given. These are also the valid configurations
whose extension has no white space around it and no dot in front. -/
theorem validate_again_iff (h : c.validate = .ok d) :
    (d.validate = .ok d ↔ ¬ StartsBlankBehindDots c.extension) ∧
      (IsNormalExtension d.extension ↔ ¬ StartsBlankBehindDots c.extension) := by
  obtain ⟨hne, -, -, hd⟩ := check_eq_ok_iff.1 (validate_eq_ok_iff.1 h)
  have hnormal : IsNormalExtension d.extension ↔ ¬ StartsBlankBehindDots c.extension := by
    rw [hd]
    exact isNormalExtension_normalExtension_iff hne
  exact ⟨(validate_eq_ok_self_iff h).trans hnormal, hnormal⟩

/-- White space around the extension and a dot in front of it are gone after one validation. -/
theorem validate_again_iff_dotted :
    let c : Config := { extension := " .dart " }
    let d : Config := { extension := "dart" }
    c.validate = .ok d ∧ ¬ StartsBlankBehindDots c.extension ∧ d.validate = .ok d := by
  intro c d
  have hvalid : c.validate = .ok d := validate_eq_ok_iff.2 (by decide)
  have hnot : ¬ StartsBlankBehindDots c.extension := by
    have hhead : ((c.extension.toList.dropWhile Text.isBlank).dropWhile (· == '.')).head? =
        some 'd' := by decide
    rw [startsBlankBehindDots_iff, hhead]
    rintro ⟨b, hb, hblank⟩
    cases hb
    exact absurd hblank (by decide)
  exact ⟨hvalid, hnot, (validate_again_iff hvalid).1.2 hnot⟩

/-- White space behind the dot stays. To validate again changes the extension, or refuses it where
nothing but dots is behind the white space. -/
theorem validate_again_blank_behind_dot :
    Config.validate { extension := ". dart" } = .ok { extension := " dart" } ∧
      Config.validate { extension := " dart" } = .ok { extension := "dart" } ∧
      Config.validate { extension := ". ." } = .ok { extension := " ." } ∧
      Config.validate { extension := " ." } = .error (Problem.toError (.noExtension " .")) := by
  refine ⟨validate_eq_ok_iff.2 (by decide), validate_eq_ok_iff.2 (by decide),
    validate_eq_ok_iff.2 (by decide), rfl⟩

end Config

end CallMigration
