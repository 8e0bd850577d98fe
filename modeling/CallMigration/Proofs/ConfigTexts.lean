import CallMigration.Config.Reader
import CallMigration.Proofs.Expecting
import CallMigration.Proofs.Following
import CallMigration.Proofs.Printing
import CallMigration.Proofs.Skipping
import CallMigration.Proofs.Validity

/-!
# Texts of a configuration

A JSON object is a text of a configuration when it gives fields under their keys, each at most once
and in any order, and leaves out none but those that have their default. Members with other keys may
stand between them. Every such text is read as the configuration.

## Main Definitions

* `Config.FieldText` — a value gives a field of a configuration
* `Config.GivesMembers` — members give the listed fields
* `Config.IsTextOf` — an object is a text of a configuration

## Main Statements

* `Config.read_of_isTextOf` — every text of a configuration is read as the configuration
* `Config.isTextOf_pretty` — what is printed about a configuration is a text of it
* `Volume.loadConfig_of_isTextOf` — so is the file that a path leads to

## Design Notes

While the members are read, the fields given so far are those of the configuration and all others
have their default: this is `fs.foldl c.withField {}`. Members with other keys give no field, so the
list of given fields says all that a reader takes from an object.
-/

namespace CallMigration

theorem Json.strings_injective {ss ts : List String} (h : Json.strings ss = .strings ts) :
    ss = ts :=
  (List.map_inj_right fun _ _ => Json.str.inj).1 (Json.arr.inj h)

namespace Config

open Json

variable {c d : Config} {f : Field} {fs : List Field} {t rest w : Bytes}

/-! ### Field by field -/

/-- A configuration with one field of `c`. -/
def withField (c d : Config) : Field → Config
  | .root => { d with root := c.root }
  | .extension => { d with extension := c.extension }
  | .mode => { d with mode := c.mode }
  | .onError => { d with onError := c.onError }
  | .dryRun => { d with dryRun := c.dryRun }
  | .skipDirs => { d with skipDirs := c.skipDirs }
  | .rootOnlySkipDirs => { d with rootOnlySkipDirs := c.rootOnlySkipDirs }
  | .exclude => { d with exclude := c.exclude }

/-- The other fields stay. -/
theorem field_withField (c d : Config) (f g : Field) :
    (c.withField d f).field g = if g = f then c.field g else d.field g := by
  cases f <;> cases g <;> rfl

theorem field_foldl_withField (c d : Config) (fs : List Field) (g : Field) :
    (fs.foldl c.withField d).field g = if g ∈ fs then c.field g else d.field g := by
  induction fs generalizing d with
  | nil => rfl
  | cons f fs ih =>
    rw [List.foldl_cons, ih, field_withField]
    grind

theorem lookup_modeChoices (m : Mode) : modeChoices.lookup m.name = some m := by
  cases m <;> decide

theorem lookup_policyChoices (p : FailurePolicy) : policyChoices.lookup p.name = some p := by
  cases p <;> decide

theorem mode_eq_of_name_eq {m n : Mode} (h : m.name = n.name) : m = n :=
  Option.some.inj (by rw [← lookup_modeChoices m, h, lookup_modeChoices])

theorem policy_eq_of_name_eq {p q : FailurePolicy} (h : p.name = q.name) : p = q :=
  Option.some.inj (by rw [← lookup_policyChoices p, h, lookup_policyChoices])

/-- Configurations with the same fields are the same. -/
theorem ext_field (h : ∀ f, c.field f = d.field f) : c = d := by
  obtain ⟨root, extension, mode, onError, dryRun, skipDirs, rootOnlySkipDirs, exclude⟩ := c
  obtain rfl := Json.str.inj (h .root)
  obtain rfl := Json.str.inj (h .extension)
  obtain rfl := mode_eq_of_name_eq (Json.str.inj (h .mode))
  obtain rfl := policy_eq_of_name_eq (Json.str.inj (h .onError))
  obtain rfl := Json.bool.inj (h .dryRun)
  obtain rfl := Json.strings_injective (h .skipDirs)
  obtain rfl := Json.strings_injective (h .rootOnlySkipDirs)
  obtain rfl := Json.strings_injective (h .exclude)
  rfl

/-! ### Values -/

/-- The text gives a field as `c` has it. -/
def FieldText (c : Config) : Field → Bytes → Prop
  | .root, v => IsString c.root v
  | .extension, v => IsString c.extension v
  | .mode, v => IsString c.mode.name v
  | .onError, v => IsString c.onError.name v
  | .dryRun, v => IsBool c.dryRun v
  | .skipDirs, v => IsStrings c.skipDirs v
  | .rootOnlySkipDirs, v => IsStrings c.rootOnlySkipDirs v
  | .exclude, v => IsStrings c.exclude v

/-- A field is read as `c` has it. -/
theorem readField_of_fieldText {v : Bytes} (hv : c.FieldText f v) (d : Config) (hw : Blank w)
    (rest : Bytes) : readField d (w ++ (v ++ rest)) f = .ok (c.withField d f, rest) := by
  cases f with
  | root => rw [readField, expectString_of_isString hw hv]; rfl
  | extension => rw [readField, expectString_of_isString hw hv]; rfl
  | mode => rw [readField, expectChoice_of_isString (lookup_modeChoices _) hw hv]; rfl
  | onError => rw [readField, expectChoice_of_isString (lookup_policyChoices _) hw hv]; rfl
  | dryRun => rw [readField, expectBool_of_isBool hw hv]; rfl
  | skipDirs => rw [readField, expectStrings_of_isStrings hw hv]; rfl
  | rootOnlySkipDirs => rw [readField, expectStrings_of_isStrings hw hv]; rfl
  | exclude => rw [readField, expectStrings_of_isStrings hw hv]; rfl

/-! ### Members -/

/-- A member with a key and a value, and the white space around them. -/
inductive IsMember (key : String) (v : Bytes) : Bytes → Prop
  | mk {w k x y u : Bytes} (hw : Blank w) (hk : Spells k key.toList) (hx : Blank x) (hy : Blank y)
      (hu : Blank u) :
      IsMember key v (w ++ quote :: (k ++ quote :: (x ++ colon :: (y ++ (v ++ u)))))

/-- A member gives one field, or none when no field has its key. -/
inductive GivesMember (c : Config) : List Field → Bytes → Prop
  | known {f : Field} {v t : Bytes} (hv : c.FieldText f v) (ht : IsMember f.key v t) :
      GivesMember c [f] t
  | unknown {key : String} {v t : Bytes} (hkey : ∀ f : Field, f.key ≠ key) (hv : IsValue v)
      (ht : IsMember key v t) : GivesMember c [] t

/-- Members with a comma between any two give the listed fields. -/
inductive GivesMembers (c : Config) : List Field → Bytes → Prop
  | one {fs : List Field} {t : Bytes} (ht : GivesMember c fs t) : GivesMembers c fs t
  | more {fs gs : List Field} {t ts : Bytes} (ht : GivesMember c fs t)
      (hts : GivesMembers c gs ts) : GivesMembers c (fs ++ gs) (t ++ comma :: ts)

theorem ofKey?_eq_none {key : String} (h : ∀ f : Field, f.key ≠ key) : Field.ofKey? key = none := by
  rw [Field.ofKey?, List.find?_eq_none]
  intro f _
  simpa using h f

theorem readMember_known {seen : List Field} (hf : f ∉ seen) {v : Bytes} (hv : c.FieldText f v)
    (d : Config) {x y : Bytes} (hx : Blank x) (hy : Blank y) (rest : Bytes) :
    readMember seen d f.key (x ++ colon :: (y ++ (v ++ rest))) =
      .ok (f :: seen, c.withField d f, rest) := by
  rw [readMember, Field.ofKey?_key]
  simp only [if_neg hf, expectColon_append hx, readField_of_fieldText hv d hy rest]

theorem readMember_unknown {key : String} (hkey : ∀ f : Field, f.key ≠ key) {v : Bytes}
    (hv : IsValue v) (seen : List Field) (d : Config) {x y : Bytes} (hx : Blank x) (hy : Blank y)
    (hrest : EndsNumber rest) :
    readMember seen d key (x ++ colon :: (y ++ (v ++ rest))) = .ok (seen, d, rest) := by
  rw [readMember, ofKey?_eq_none hkey]
  simp only [expectColon_append hx, skipValue_of_isValue hy hv hrest]

/-! ### Objects -/

theorem readMembers_of_stop {seen : List Field} {first : Bool}
    (h : nextMember first t = .ok (.stop rest)) : readMembers seen d first t = .ok (d, rest) := by
  rw [readMembers]
  split <;> simp_all

theorem readMembers_of_key {seen seen' : List Field} {d' : Config} {first : Bool} {u v : Bytes}
    {key : String} (h : nextMember first t = .ok (.key u))
    (hk : readString u = .ok (Bytes.ofString key, v))
    (hv : readMember seen d key v = .ok (seen', d', rest)) :
    readMembers seen d first t = readMembers seen' d' false rest := by
  rw [← stringOf_ofString key] at hv
  rw [readMembers]
  split <;> simp_all only [reduceCtorEq, Except.ok.injEq, Member.key.injEq]
  split <;> simp_all only [reduceCtorEq, Except.ok.injEq, Prod.mk.injEq]
  split <;> simp_all

/-- A member is read behind what leads to it, and adds the fields that it gives. -/
theorem exists_readMembers_of_givesMember (h : GivesMember c fs t) {seen : List Field}
    (hseen : ∀ f ∈ fs, f ∉ seen) (d : Config) (first : Bool) (hw : Blank w)
    (hrest : EndsNumber rest) :
    ∃ u, Blank u ∧ readMembers seen d first (w ++ (itemLead first ++ (t ++ rest))) =
      readMembers (fs ++ seen) (fs.foldl c.withField d) false (u ++ rest) := by
  have hkey : ∀ {w' k x : Bytes}, Blank w' → ∀ t, nextMember first
      (w ++ (itemLead first ++ (w' ++ quote :: (k ++ quote :: (x ++ colon :: t))))) =
        .ok (.key (k ++ quote :: (x ++ colon :: t))) := by
    intro w' k x hw' t
    rw [nextMember_append first hw, nextMember_append_key first hw']
  cases h with
  | known hv ht =>
    obtain ⟨hw', hk, hx, hy, hu⟩ := ht
    refine ⟨_, hu, ?_⟩
    simp only [List.append_assoc, List.cons_append]
    exact readMembers_of_key (hkey hw' _) (readString_of_isString hk _)
      (readMember_known (hseen _ List.mem_cons_self) hv d hx hy _)
  | unknown hne hv ht =>
    obtain ⟨hw', hk, hx, hy, hu⟩ := ht
    refine ⟨_, hu, ?_⟩
    simp only [List.append_assoc, List.cons_append]
    exact readMembers_of_key (hkey hw' _) (readString_of_isString hk _)
      (readMember_unknown hne hv seen d hx hy (endsNumber_append hu hrest))

/-- The members that are left are read behind what leads to them. -/
theorem readMembers_of_givesMembers (h : GivesMembers c fs t) {seen : List Field}
    (hseen : ∀ f ∈ fs, f ∉ seen) (hfs : fs.Nodup) (d : Config) (first : Bool) (hw : Blank w)
    (rest : Bytes) :
    readMembers seen d first (w ++ (itemLead first ++ (t ++ closeBrace :: rest))) =
      .ok (fs.foldl c.withField d, rest) := by
  induction h generalizing seen d first w with
  | one ht =>
    have hrest : EndsNumber (closeBrace :: rest) := endsNumber_close .object rest
    obtain ⟨u, hu, hread⟩ := exists_readMembers_of_givesMember ht hseen d first hw hrest
    rw [hread, readMembers_of_stop (nextMember_append_stop false hu rest)]
  | @more fs gs t ts ht hts ih =>
    obtain ⟨-, hgs, hdisjoint⟩ := List.nodup_append.1 hfs
    obtain ⟨hseenfs, hseengs⟩ := List.forall_mem_append.1 hseen
    obtain ⟨u, hu, hread⟩ := exists_readMembers_of_givesMember ht hseenfs d first hw
      (endsNumber_comma (ts ++ closeBrace :: rest))
    have hfresh : ∀ g ∈ gs, g ∉ fs ++ seen := by
      intro g hg hmem
      rcases List.mem_append.1 hmem with hf | hf
      · exact hdisjoint g hf g hg rfl
      · exact hseengs g hg hf
    rw [List.append_assoc, List.cons_append, hread, List.foldl_append]
    exact ih hfresh hgs _ false hu

/-! ### Whole texts -/

/-- What stands between the braces of an object that gives the listed fields. -/
inductive GivesFields (c : Config) : List Field → Bytes → Prop
  | none {w : Bytes} (hw : Blank w) : GivesFields c [] w
  | members {fs : List Field} {t : Bytes} (ht : GivesMembers c fs t) : GivesFields c fs t

/-- An object that gives fields of the configuration, each at most once, and leaves out none but
those that have their default. -/
inductive IsTextOf (c : Config) : Bytes → Prop
  | mk {fs : List Field} {w t u : Bytes} (hw : Blank w) (ht : c.GivesFields fs t) (hu : Blank u)
      (honce : fs.Nodup) (hdefault : ∀ f ∉ fs, c.field f = ({} : Config).field f) :
      IsTextOf c (w ++ openBrace :: (t ++ closeBrace :: u))

theorem readMembers_of_givesFields (h : c.GivesFields fs t) (hfs : fs.Nodup) (rest : Bytes) :
    readMembers [] {} true (t ++ closeBrace :: rest) = .ok (fs.foldl c.withField {}, rest) := by
  cases h with
  | none hw => exact readMembers_of_stop (nextMember_append_stop true hw rest)
  | members ht =>
    exact readMembers_of_givesMembers (w := []) ht (fun _ _ => List.not_mem_nil) hfs {} true
      Blank.nil rest

/-- Given fields make up the configuration when the others have their default. -/
theorem foldl_withField (h : ∀ f ∉ fs, c.field f = ({} : Config).field f) :
    fs.foldl c.withField {} = c := by
  refine ext_field fun f => ?_
  rw [field_foldl_withField]
  split
  next => rfl
  next hf => exact (h f hf).symm

/-- A text of a configuration is read as this configuration. -/
theorem read_of_isTextOf (h : c.IsTextOf t) : Config.read t = .ok c := by
  obtain ⟨hw, ht, hu, honce, hdefault⟩ := h
  rw [Config.read, readPrefix, skipBlanks_append_cons hw (by decide)]
  simp only [if_true, readMembers_of_givesFields ht honce, foldl_withField hdefault]
  rw [hu.skipBlanks_eq_nil]

/-! ### Printed configurations -/

theorem isString_quotedChars (s : String) : IsString s (Bytes.ofChars (quotedChars s)) := by
  rw [ofChars_quotedChars]
  exact .mk (spells_escapedChars _)

/-- Printed strings are items behind the first one. -/
theorem isStringItems_prettyItems (level : Nat) (s : String) (ss : List String) {u : Bytes}
    (hw : Blank w) (hu : Blank u) :
    IsStringItems (s :: ss) (w ++ (Bytes.ofChars (quotedChars s) ++
      (Bytes.ofChars (prettyItems level (ss.map Json.str)) ++ u))) := by
  induction ss generalizing s w with
  | nil =>
    rw [List.map_nil, prettyItems, Bytes.ofChars_nil, List.nil_append]
    exact .one hw (isString_quotedChars s) hu
  | cons s' ss ih =>
    rw [List.map_cons, ofChars_prettyItems_cons, prettyChars, List.cons_append, List.append_assoc,
      List.append_assoc]
    exact .more hw (isString_quotedChars s) Blank.nil (ih s' (blank_lineStart level))

theorem isStrings_prettyChars (level : Nat) (ss : List String) :
    IsStrings ss (Bytes.ofChars (prettyChars level (Json.strings ss))) := by
  cases ss with
  | nil => exact .empty Blank.nil
  | cons s ss =>
    have hitems := isStringItems_prettyItems (level + 1) s ss (blank_lineStart (level + 1))
      (blank_lineStart level)
    rw [Json.strings, List.map_cons, ofChars_prettyChars_arr, prettyChars]
    simpa only [List.append_assoc] using IsStrings.items hitems

theorem isBool_prettyChars (level : Nat) (b : Bool) :
    IsBool b (Bytes.ofChars (prettyChars level (.bool b))) := by
  cases b with
  | true => exact .true
  | false => exact .false

theorem fieldText_prettyChars (c : Config) (level : Nat) (f : Field) :
    c.FieldText f (Bytes.ofChars (prettyChars level (c.field f))) := by
  cases f with
  | root => exact isString_quotedChars c.root
  | extension => exact isString_quotedChars c.extension
  | mode => exact isString_quotedChars c.mode.name
  | onError => exact isString_quotedChars c.onError.name
  | dryRun => exact isBool_prettyChars level c.dryRun
  | skipDirs => exact isStrings_prettyChars level c.skipDirs
  | rootOnlySkipDirs => exact isStrings_prettyChars level c.rootOnlySkipDirs
  | exclude => exact isStrings_prettyChars level c.exclude

theorem isMember_quotedChars (key : String) (v : Bytes) {u : Bytes} (hw : Blank w) (hu : Blank u) :
    IsMember key v (w ++ (Bytes.ofChars (quotedChars key) ++ colon :: (0x20 :: (v ++ u)))) := by
  have hspace : Blank [0x20] := by simp [Blank, Json.isBlank]
  rw [ofChars_quotedChars, List.cons_append, List.append_assoc]
  exact .mk hw (spells_escapedChars _) Blank.nil hspace hu

/-- Printed fields are members behind the first one. -/
theorem givesMembers_prettyMembers (c : Config) (level : Nat) (f : Field) (fs : List Field)
    {u : Bytes} (hw : Blank w) (hu : Blank u) :
    c.GivesMembers (f :: fs) (w ++ (Bytes.ofChars (quotedChars f.key) ++ colon :: (0x20 ::
      (Bytes.ofChars (prettyChars level (c.field f)) ++
        (Bytes.ofChars (prettyMembers level (fs.map fun f => (f.key, c.field f))) ++ u))))) := by
  have hmember := fun f => fieldText_prettyChars c level f
  induction fs generalizing f w with
  | nil =>
    rw [List.map_nil, prettyMembers, Bytes.ofChars_nil, List.nil_append]
    exact .one (.known (hmember f) (isMember_quotedChars f.key _ hw hu))
  | cons f' fs ih =>
    have hfirst := isMember_quotedChars f.key (Bytes.ofChars (prettyChars level (c.field f))) hw
      Blank.nil
    have hmembers := GivesMembers.more (.known (hmember f) hfirst)
      (ih f' (blank_lineStart level))
    rw [List.map_cons, ofChars_prettyMembers_cons]
    simpa only [List.append_assoc, List.cons_append, List.append_nil, List.nil_append] using
      hmembers

/-- What is printed about a configuration is a text of it. -/
theorem isTextOf_pretty (c : Config) : c.IsTextOf (Bytes.ofString c.toJson.pretty) := by
  have hmembers := givesMembers_prettyMembers c 1 .root Field.all.tail (blank_lineStart 1)
    (blank_lineStart 0)
  have htext := IsTextOf.mk (w := []) Blank.nil (.members hmembers) Blank.nil (by decide)
    (fun f hf => absurd (Field.mem_all f) hf)
  rw [pretty, Bytes.ofString_ofList, toJson, Field.all, List.map_cons, ofChars_prettyChars_obj]
  simpa only [List.append_assoc, List.cons_append, List.append_nil, List.nil_append, Field.all,
    List.tail_cons, Nat.zero_add] using htext

/-- A printed configuration is read back. -/
theorem read_pretty (c : Config) : Config.read (Bytes.ofString c.toJson.pretty) = .ok c :=
  read_of_isTextOf (isTextOf_pretty c)

end Config

/-- A file with a text of a configuration gives this configuration. -/
theorem Volume.loadConfig_of_isTextOf {disk : Disk} {v : Volume} {path : Bytes} {c : Config}
    {text : String} (hread : v.read disk path = .ok (Bytes.ofString text))
    (htext : c.IsTextOf (Bytes.ofString text)) : v.loadConfig disk path = .ok c := by
  have hvalid : Utf8.invalidAt? (Bytes.ofString text) = none := Utf8.valid_ofString text
  rw [loadConfig, readText, hread]
  simp only [hvalid, Config.read_of_isTextOf htext]

/-- Only two fields are given, one of them in an unusual spelling, behind a member of no field. -/
theorem Volume.loadConfig_of_isTextOf_partial :
    let text := " \x7b\"note\\n\" : [1.5, \x7b\x7d], \"mode\":\"bal\\u0061nced\"," ++
      "\"skip_dirs\": [\"build\" ]\x7d\n"
    let path := Bytes.ofString "c.json"
    let v : Volume := ⟨⟨⟨{}, [(path, .file 0)]⟩, []⟩, [⟨Bytes.ofString text, {}⟩]⟩
    v.loadConfig .sound path = .ok { mode := .balanced, skipDirs := ["build"] } := by
  intro text path v
  have hresolve : v.tree.resolve path = .ok (.leaf (.file 0)) :=
    Tree.resolve_eq_of_followWithin (n := 1) (by decide) (by decide) (by decide) rfl
  have hread : v.read .sound path = .ok (Bytes.ofString text) := by
    rw [Volume.read, hresolve]
    rfl
  have hspace : Json.Blank [0x20] := by simp [Json.Blank, Json.isBlank]
  have hnewline : Json.Blank [0x0A] := by simp [Json.Blank, Json.isBlank]
  have hnumber : Json.IsValue _ :=
    .number (.mk (Json.isInteger_digitBytes 1) (.present (Json.isDigits_digitBytes 5)) .absent)
  have hnote : Json.IsValue _ :=
    .container .array (.more (.item .nil hnumber .nil)
      (.one (.item hspace (.empty .object .nil) .nil)))
  have hkey : ∀ f : Config.Field, f.key ≠ "note\n" := fun f => by cases f <;> decide
  have hletter : Json.FourDigits [0x30, 0x30, 0x36, 0x31] 'a'.toNat := ⟨rfl, by decide⟩
  have hmode : Json.IsString "balanced" _ :=
    .mk ((Json.spells_escapedChars "bal".toList).append
      (.number hletter (Json.spells_escapedChars "nced".toList)))
  have hskip : Json.IsStrings ["build"] _ :=
    .items (.one .nil (.mk (Json.spells_escapedChars _)) hspace)
  have htext := Config.IsTextOf.mk (c := { mode := .balanced, skipDirs := ["build"] }) hspace
    (.members (.more (.unknown hkey hnote
        (.mk .nil (Json.spells_escapedChars _) hspace hspace .nil))
      (.more (.known (f := .mode) hmode (.mk hspace (Json.spells_escapedChars _) .nil .nil .nil))
        (.one (.known (f := .skipDirs) hskip
          (.mk .nil (Json.spells_escapedChars _) .nil hspace .nil))))))
    hnewline (by decide) (fun f hf => by cases f <;> first | rfl | exact absurd hf (by decide))
  refine Volume.loadConfig_of_isTextOf hread (Eq.subst (motive := Config.IsTextOf _) ?_ htext)
  decide +kernel

end CallMigration
