import CallMigration.Proofs.Shallow
import CallMigration.Proofs.Validity
import CallMigration.Rule.Checked

/-!
# What the pattern of a rule means

A rule is described by a pattern over the characters of a text. Read as such, it finds what shallow
editing replaces: the first place where it matches, with the shortest argument, then the first one
behind that match, and so on.

## Main Definitions

* `Pattern` — what a text has to look like to match, and which part of it is captured
* `Pattern.read?` — the pattern that a text describes
* `Pattern.ways` — the ways in which a pattern matches at the start of a text
* `Pattern.Replaces` — a text with its matches replaced from left to right

## Main Statements

* `Pattern.Replaces.unique` — there is one way to replace the matches of a text
* `Rule.read?_pattern` — a rule is described by a pattern for its calls, whatever its method is
* `Rule.apply_shallow_iff_replaces` — shallow editing replaces the matches of this pattern

## Design Notes

Of the language of patterns only that part is read in which rules are described: characters, `.*?`,
and parentheses that capture. Any other text with an unescaped sign is refused. The ways to match
are listed in the order in which a matcher prefers them, and the first one counts.

A pattern speaks of characters, editing of bytes. A trigger starts and ends with characters of a
single byte, so it starts nowhere within a longer character.
-/

namespace CallMigration

/-! ### Patterns -/

/-- What a text has to look like to match, and which parts of it are captured. -/
inductive Pattern
  /-- Nothing. -/
  | empty
  /-- This character. -/
  | char (c : Char)
  /-- Any characters up to the end of the line, as few as possible: `.*?`. -/
  | few
  /-- One pattern behind the other. -/
  | seq (p q : Pattern)
  /-- A pattern of which the text is captured. -/
  | group (p : Pattern)
  deriving DecidableEq, Repr

namespace Pattern

/-- The characters that do not stand for themselves. -/
def isOperator (c : Char) : Bool := c ∈ "\\.+*?()|[]\x7b\x7d^$".toList

/-- The characters that a backslash makes stand for themselves: those of ASCII but letters, digits
and angle brackets. -/
def isEscapable (c : Char) : Bool := c.toNat < 0x80 && !c.isAlphanum && c != '<' && c != '>'

/-- Reads on behind the pattern `p`, `outer` being the patterns in front of the parentheses that are
open, the innermost first. -/
def readFrom (outer : List Pattern) (p : Pattern) : List Char → Option Pattern
  | [] => if outer = [] then some p else none
  | '\\' :: c :: cs => if isEscapable c then readFrom outer (p.seq (.char c)) cs else none
  | '.' :: '*' :: '?' :: cs => readFrom outer (p.seq .few) cs
  | '(' :: cs => readFrom (p :: outer) .empty cs
  | ')' :: cs =>
    match outer with
    | [] => none
    | q :: outer => readFrom outer (q.seq (.group p)) cs
  | c :: cs => if isOperator c then none else readFrom outer (p.seq (.char c)) cs

/-- The pattern that a text describes, if it is one of those that are read here. -/
def read? (text : String) : Option Pattern := readFrom [] .empty text.toList

/-! ### Matching -/

/-- A way to match at the start of a text. -/
structure Way where
  /-- The captured parts, in the order of their opening parentheses. -/
  captures : List (List Char)
  /-- The text behind the match. -/
  rest : List Char
  deriving DecidableEq, Repr

/-- What is left of a text behind some characters of its first line, the fewest first. -/
def restsOfLine : List Char → List (List Char)
  | [] => [[]]
  | c :: s => (c :: s) :: if c = '\n' then [] else restsOfLine s

/-- The ways in which a pattern matches at the start of a text, the preferred ones first. -/
def ways : Pattern → List Char → List Way
  | .empty, s => [⟨[], s⟩]
  | .char c, s => if s.head? = some c then [⟨[], s.tail⟩] else []
  | .few, s => (restsOfLine s).map (⟨[], ·⟩)
  | .seq p q, s =>
    (p.ways s).flatMap fun w => (q.ways w.rest).map fun x => ⟨w.captures ++ x.captures, x.rest⟩
  | .group p, s =>
    (p.ways s).map fun w => ⟨s.take (s.length - w.rest.length) :: w.captures, w.rest⟩

/-- The match at the start of a text. -/
def match? (p : Pattern) (s : List Char) : Option Way := (p.ways s).head?

/-- No match starts in `a` when `b` follows. -/
def NoMatchIn (p : Pattern) (a b : List Char) : Prop :=
  ∀ i < a.length, p.match? ((a ++ b).drop i) = none

/-- A text becomes another one when its matches are replaced from left to right, `n` of them. What
takes the place of a match is made of its captured parts. -/
inductive Replaces (p : Pattern) (new : List (List Char) → List Char) :
    List Char → List Char → Nat → Prop
  /-- Nothing matches anywhere. -/
  | done {s : List Char} (hnone : ∀ i, p.match? (s.drop i) = none) : Replaces p new s s 0
  /-- The first match is replaced, and the search goes on behind it. -/
  | next {before here out : List Char} {w : Way} {n : Nat} (hbefore : p.NoMatchIn before here)
      (hmatch : p.match? here = some w) (hshorter : w.rest.length < here.length)
      (hrest : Replaces p new w.rest out n) :
      Replaces p new (before ++ here) (before ++ (new w.captures ++ out)) (n + 1)

variable {p : Pattern} {new : List (List Char) → List Char}

theorem NoMatchIn.append {a b c : List Char} (ha : p.NoMatchIn a (b ++ c))
    (hb : p.NoMatchIn b c) : p.NoMatchIn (a ++ b) c := by
  intro i hi
  rw [List.append_assoc]
  rcases Nat.lt_or_ge i a.length with hlt | hge
  · exact ha i hlt
  · obtain ⟨k, rfl⟩ := Nat.exists_eq_add_of_le hge
    rw [List.drop_length_add_append]
    rw [List.length_append] at hi
    exact hb k (by omega)

/-- A text in front in which no match starts is kept. -/
theorem Replaces.append {before s out : List Char} {n : Nat} (hbefore : p.NoMatchIn before s)
    (h : Replaces p new s out n) : Replaces p new (before ++ s) (before ++ out) n := by
  cases h with
  | done hnone =>
    refine .done fun i => ?_
    rcases Nat.lt_or_ge i before.length with hi | hi
    · exact hbefore i hi
    · obtain ⟨k, rfl⟩ := Nat.exists_eq_add_of_le hi
      rw [List.drop_length_add_append]
      exact hnone k
  | next hmore hmatch hshorter hrest =>
    rw [← List.append_assoc, ← List.append_assoc]
    exact .next (hbefore.append hmore) hmatch hshorter hrest

/-- No text has its matches replaced in two ways. -/
theorem Replaces.unique {s out out' : List Char} {n n' : Nat} (h : Replaces p new s out n)
    (h' : Replaces p new s out' n') : out = out' ∧ n = n' := by
  induction h generalizing out' n' with
  | done hnone =>
    cases h' with
    | done => exact ⟨rfl, rfl⟩
    | @next before here _ w n hbefore hmatch _ hrest =>
      have hnow := hnone before.length
      rw [List.drop_left, hmatch] at hnow
      cases hnow
  | @next before here out w n hbefore hmatch hshorter hrest ih =>
    generalize hs : before ++ here = s at h'
    cases h' with
    | done hnone =>
      have hnow := hnone before.length
      rw [← hs, List.drop_left, hmatch] at hnow
      cases hnow
    | @next before' here' out' w' n' hbefore' hmatch' hshorter' hrest' =>
      -- neither of the two matches starts in front of the other
      have hlength : before.length = before'.length := by
        rcases Nat.lt_trichotomy before.length before'.length with hlt | heq | hgt
        · have hnow := hbefore' _ hlt
          rw [← hs, List.drop_left, hmatch] at hnow
          cases hnow
        · exact heq
        · have hnow := hbefore _ hgt
          rw [hs, List.drop_left, hmatch'] at hnow
          cases hnow
      obtain ⟨rfl, rfl⟩ := List.append_inj hs hlength
      rw [hmatch, Option.some_inj] at hmatch'
      subst hmatch'
      obtain ⟨rfl, rfl⟩ := ih hrest'
      exact ⟨rfl, rfl⟩

/-! ### Literal texts -/

/-- The pattern of given characters. -/
def literal (cs : List Char) : Pattern := cs.foldl (fun p c => p.seq (.char c)) .empty

/-- A literal text matches where it stands, in one way. -/
theorem ways_literal (cs s : List Char) :
    (literal cs).ways s = if cs <+: s then [⟨[], s.drop cs.length⟩] else [] := by
  induction cs using List.reverseRecOn with
  | nil => simp [literal, ways]
  | append_singleton cs c ih =>
    rw [literal, List.foldl_concat, ways]
    change ((literal cs).ways s).flatMap _ = _
    rw [ih]
    by_cases hcs : cs <+: s
    · obtain ⟨u, rfl⟩ := hcs
      rw [if_pos (List.prefix_append cs u), List.drop_left]
      simp only [List.prefix_append_right_inj, List.length_append, List.drop_length_add_append]
      cases u with
      | nil => simp [ways]
      | cons d u => by_cases hd : d = c <;> simp [ways, hd, eq_comm]
    · have hlonger : ¬ cs ++ [c] <+: s := mt (List.prefix_append cs [c]).trans hcs
      rw [if_neg hcs, if_neg hlonger, List.flatMap_nil]

/-! ### Short arguments -/

/-- What can be left behind some characters of the first line. -/
theorem mem_restsOfLine_iff {s v : List Char} :
    v ∈ restsOfLine s ↔ ∃ a, s = a ++ v ∧ '\n' ∉ a := by
  induction s with
  | nil =>
    rw [restsOfLine, List.mem_singleton]
    constructor
    · rintro rfl
      exact ⟨[], rfl, List.not_mem_nil⟩
    · rintro ⟨a, ha, -⟩
      exact (List.append_eq_nil_iff.1 ha.symm).2
  | cons c s ih =>
    rw [restsOfLine, List.mem_cons]
    constructor
    · rintro (rfl | hmore)
      · exact ⟨[], rfl, List.not_mem_nil⟩
      · by_cases hline : c = '\n'
        · simp [hline] at hmore
        · rw [if_neg hline] at hmore
          obtain ⟨a, rfl, ha⟩ := ih.1 hmore
          exact ⟨c :: a, rfl, by simpa [ha] using Ne.symm hline⟩
    · rintro ⟨a, ha, hline⟩
      cases a with
      | nil => exact .inl ha.symm
      | cons d a =>
        obtain ⟨rfl, rfl⟩ := List.cons_eq_cons.1 ha
        rw [List.mem_cons, not_or] at hline
        rw [if_neg (Ne.symm hline.1)]
        exact .inr (ih.2 ⟨a, rfl, hline.2⟩)

/-- Of what is left behind some characters of the line, that behind the fewest comes first at which
anything matches. -/
theorem flatMap_restsOfLine_append {f : List Char → List Way} {a b : List Char} (hline : '\n' ∉ a)
    (hnot : ∀ u v, a = u ++ v → v ≠ [] → f (v ++ b) = []) :
    (restsOfLine (a ++ b)).flatMap f = (restsOfLine b).flatMap f := by
  induction a with
  | nil => rfl
  | cons c a ih =>
    rw [List.mem_cons, not_or] at hline
    have hhere : f (c :: a ++ b) = [] := hnot [] (c :: a) rfl (by simp)
    rw [List.cons_append, restsOfLine, if_neg (Ne.symm hline.1), List.flatMap_cons]
    rw [List.cons_append] at hhere
    rw [hhere, List.nil_append]
    exact ih hline.2 fun u v huv hv => hnot (c :: u) v (by rw [huv, List.cons_append]) hv

/-! ### Reading -/

theorem isEscapable_of_isPatternSign {c : Char} (h : Rule.isPatternSign c = true) :
    isEscapable c = true := by
  have hall : "\\.+*?()|[]\x7b\x7d^$#&-~".toList.all isEscapable = true := by decide
  exact List.all_eq_true.1 hall c (of_decide_eq_true h)

theorem isPatternSign_of_isOperator {c : Char} (h : isOperator c = true) :
    Rule.isPatternSign c = true := by
  have hall : "\\.+*?()|[]\x7b\x7d^$".toList.all Rule.isPatternSign = true := by decide
  exact List.all_eq_true.1 hall c (of_decide_eq_true h)

/-- A character that is no operator stands for itself. -/
theorem readFrom_cons {c : Char} (h : isOperator c = false) (outer : List Pattern) (p : Pattern)
    (cs : List Char) : readFrom outer p (c :: cs) = readFrom outer (p.seq (.char c)) cs := by
  rw [readFrom, h]
  · rfl
  -- whatever starts anything else is an operator
  all_goals
    intros
    subst_vars
    exact absurd h (by decide)

/-- A name with a backslash before each sign is read as its characters. -/
theorem readFrom_escaped_append (outer : List Pattern) (p : Pattern) (name : String)
    (rest : List Char) :
    readFrom outer p ((Rule.escaped name).toList ++ rest) =
      readFrom outer (name.toList.foldl (fun p c => p.seq (.char c)) p) rest := by
  rw [Rule.escaped, String.toList_ofList]
  induction name.toList generalizing p with
  | nil => rfl
  | cons c cs ih =>
    rw [List.flatMap_cons, List.append_assoc, List.foldl_cons, ← ih]
    cases hc : Rule.isPatternSign c with
    | true => simp [readFrom, isEscapable_of_isPatternSign hc]
    | false =>
      have hoperator : isOperator c = false := by
        rw [Bool.eq_false_iff] at hc ⊢
        exact mt isPatternSign_of_isOperator hc
      simp [readFrom_cons hoperator]

end Pattern

/-! ### The pattern of a rule -/

namespace Rule

open Pattern

variable {r : Rule}

/-- The characters that open a call, behind its dot. -/
def triggerTailChars (r : Rule) : List Char := r.method.toList ++ ['(']

/-- The characters that open a call. -/
def triggerChars (r : Rule) : List Char := '.' :: r.triggerTailChars

/-- The calls of a rule: `.method(`, an argument as short as possible that is captured, and `)`. -/
def callPattern (r : Rule) : Pattern :=
  ((literal r.triggerChars).seq (.group (.seq .empty .few))).seq (.char ')')

/-- A rule is described by the pattern of its calls, whatever characters its method has. -/
theorem read?_pattern (r : Rule) : read? r.pattern = some r.callPattern := by
  have hdot : ∀ cs, readFrom [] .empty ("\\.".toList ++ cs) =
      readFrom [] (.seq .empty (.char '.')) cs := fun _ => rfl
  rw [read?, pattern, String.toList_append, String.toList_append, List.append_assoc, hdot,
    readFrom_escaped_append, callPattern, literal, triggerChars, triggerTailChars,
    List.foldl_cons, List.foldl_concat]
  rfl

/-- Where a call is opened, the pattern matches with each argument up to a `)` on the line, the
shortest one first. -/
theorem ways_callPattern_append (r : Rule) (u : List Char) :
    r.callPattern.ways (r.triggerChars ++ u) = (restsOfLine u).flatMap fun v =>
      if v.head? = some ')' then [⟨[u.take (u.length - v.length)], v.tail⟩] else [] := by
  rw [callPattern, ways, ways, ways_literal, if_pos (List.prefix_append _ u), List.drop_left]
  simp only [ways, List.flatMap_singleton, List.map_map, List.flatMap_map, Function.comp_apply]
  refine List.flatMap_congr fun v _ => ?_
  split <;> rfl

/-- A call is matched up to the first `)`, and its argument is captured. -/
theorem match?_callPattern_append (r : Rule) {a : List Char} (hclose : ')' ∉ a) (hline : '\n' ∉ a)
    (b : List Char) :
    r.callPattern.match? (r.triggerChars ++ (a ++ ')' :: b)) = some ⟨[a], b⟩ := by
  rw [match?, ways_callPattern_append, flatMap_restsOfLine_append hline]
  · simp [restsOfLine]
  · rintro u v rfl hv
    obtain ⟨c, v, rfl⟩ := List.exists_cons_of_ne_nil hv
    refine if_neg ?_
    rintro ⟨⟩
    simp at hclose

/-- Where no `)` follows on the line, nothing is matched. -/
theorem match?_callPattern_append_eq_none (r : Rule) {u : List Char}
    (h : ∀ a b, u = a ++ ')' :: b → '\n' ∈ a) :
    r.callPattern.match? (r.triggerChars ++ u) = none := by
  rw [match?, ways_callPattern_append, List.head?_eq_none_iff, List.flatMap_eq_nil_iff]
  intro v hv
  obtain ⟨a, rfl, hline⟩ := mem_restsOfLine_iff.1 hv
  refine if_neg fun hhead => ?_
  obtain ⟨b, rfl⟩ : ∃ b, v = ')' :: b := by
    cases v with
    | nil => cases hhead
    | cons c b => exact ⟨b, by rw [Option.some.inj hhead]⟩
  exact hline (h a b rfl)

/-- Where no call is opened, nothing is matched. -/
theorem match?_callPattern_of_not_prefix {s : List Char} (h : ¬ r.triggerChars <+: s) :
    r.callPattern.match? s = none := by
  rw [match?, callPattern, ways, ways, ways_literal, if_neg h]
  rfl

/-! ### Characters and bytes -/

theorem ofChars_triggerTailChars (r : Rule) :
    Bytes.ofChars r.triggerTailChars = r.triggerTail := by
  rw [triggerTailChars, Bytes.ofChars_append, ← Bytes.ofString_eq_ofChars]
  rfl

theorem ofChars_triggerChars (r : Rule) : Bytes.ofChars r.triggerChars = r.trigger := by
  rw [triggerChars, Bytes.ofChars_cons_of_lt (by decide), ofChars_triggerTailChars]
  rfl

/-- What takes the place of a call with a captured argument. -/
def renderChars (r : Rule) (captures : List (List Char)) : List Char :=
  ("." ++ r.replacement ++ "(" ++ r.label ++ ": ").toList ++ (captures.headD [] ++ [')'])

theorem ofChars_renderChars (r : Rule) (a : List Char) :
    Bytes.ofChars (r.renderChars [a]) = r.render (Bytes.ofChars a) := by
  rw [renderChars, Bytes.ofChars_append, Bytes.ofChars_append, ← Bytes.ofString_eq_ofChars]
  rfl

/-- The template is what takes the place of a call whose argument is `$1`. -/
theorem toList_template (r : Rule) : r.template.toList = r.renderChars ["$1".toList] := by
  simp [template, renderChars]

/-- Where the characters of a call start, its bytes do. -/
theorem isPrefix_drop_ofChars {s : List Char} {i : Nat} (h : r.triggerChars <+: s.drop i) :
    r.trigger <+: (Bytes.ofChars s).drop (Bytes.ofChars (s.take i)).length := by
  obtain ⟨u, hu⟩ := h
  have hs : Bytes.ofChars s = Bytes.ofChars (s.take i) ++ (r.trigger ++ Bytes.ofChars u) := by
    rw [← ofChars_triggerChars, ← Bytes.ofChars_append, hu, ← Bytes.ofChars_append,
      List.take_append_drop]
  rw [hs, List.drop_left]
  exact List.prefix_append _ _

/-- Where the bytes of a text hold no trigger, nothing is matched. -/
theorem noMatchIn_of_noTriggerIn {a b : List Char}
    (h : r.NoTriggerIn (Bytes.ofChars a) (Bytes.ofChars b)) : r.callPattern.NoMatchIn a b := by
  intro i hi
  refine match?_callPattern_of_not_prefix fun hstart => ?_
  have hbytes := isPrefix_drop_ofChars hstart
  rw [List.take_append_of_le_length hi.le, Bytes.ofChars_append] at hbytes
  refine h _ ?_ hbytes
  conv_rhs => rw [← List.take_append_drop i a, Bytes.ofChars_append, List.length_append]
  have hpos : 0 < (Bytes.ofChars (a.drop i)).length :=
    List.length_pos_iff.2 (mt Bytes.ofChars_eq_nil_iff.1 (List.drop_eq_nil_iff.not.2 hi.not_ge))
  omega

/-- A text of characters is cut at a trigger between characters. -/
theorem exists_chars_of_eq_append_trigger_append {s : List Char} {x y : Bytes}
    (h : Bytes.ofChars s = x ++ (r.trigger ++ y)) :
    ∃ a b, x = Bytes.ofChars a ∧ y = Bytes.ofChars b ∧ s = a ++ (r.triggerChars ++ b) := by
  have hvalid := Utf8.valid_ofChars s
  rw [h] at hvalid
  obtain ⟨hx, hy⟩ := valid_append_trigger_append hvalid
  obtain ⟨a, rfl⟩ := hx.exists_ofChars
  obtain ⟨b, rfl⟩ := hy.exists_ofChars
  refine ⟨a, b, rfl, rfl, ?_⟩
  rw [← Bytes.ofChars_inj, h, Bytes.ofChars_append, Bytes.ofChars_append, ofChars_triggerChars]

/-- The first `)` on the line is found between characters. -/
theorem exists_chars_of_first? {s : List Char} {i : Nat}
    (h : Paren.first? (Bytes.ofChars s) = some i) :
    ∃ a b, s = a ++ ')' :: b ∧ ')' ∉ a ∧ '\n' ∉ a ∧ (Bytes.ofChars s).take i = Bytes.ofChars a ∧
      (Bytes.ofChars s).drop (i + 1) = Bytes.ofChars b := by
  obtain ⟨u, v, hs, rfl, hclose, hline⟩ := Paren.first?_eq_some_iff.1 h
  have hvalid := Utf8.valid_ofChars s
  rw [hs, Utf8.valid_append_cons_iff (by decide)] at hvalid
  obtain ⟨a, rfl⟩ := hvalid.1.exists_ofChars
  obtain ⟨b, rfl⟩ := hvalid.2.exists_ofChars
  have hchars : s = a ++ ')' :: b := by
    rw [← Bytes.ofChars_inj, hs, Bytes.ofChars_append, Bytes.ofChars_cons_of_lt (by decide)]
    rfl
  refine ⟨a, b, hchars, mt (Bytes.mem_ofChars_iff (by decide) a).2 hclose,
    mt (Bytes.mem_ofChars_iff (by decide) a).2 hline, ?_, ?_⟩
  · rw [hs, List.take_left]
  · rw [hs, Bytes.drop_append_cons]

/-- Where no `)` is found on the line, the first one of the characters is behind its end. -/
theorem newline_mem_of_first?_eq_none {a b : List Char}
    (h : Paren.first? (Bytes.ofChars (a ++ ')' :: b)) = none) : '\n' ∈ a := by
  by_contra hline
  have hnewline : Bytes.newline ∉ Bytes.ofChars a :=
    mt (Bytes.mem_ofChars_iff (c := '\n') (by decide) a).1 hline
  have hsome := Paren.isSome_first?_append hnewline (Bytes.ofChars b)
  rw [Bytes.ofChars_append, Bytes.ofChars_cons_of_lt (by decide)] at h
  change Paren.first? (Bytes.ofChars a ++ Bytes.closeParen :: Bytes.ofChars b) = none at h
  rw [h] at hsome
  cases hsome

/-! ### Shallow editing -/

/-- Shallow editing replaces the matches of the pattern of the calls. -/
theorem exists_replaces_shallow (r : Rule) (s : List Char) :
    ∃ out, Replaces r.callPattern r.renderChars s out (r.shallow (Bytes.ofChars s)).replacements ∧
      Bytes.ofChars out = (r.shallow (Bytes.ofChars s)).text := by
  -- the search goes on in a shorter text, be it behind a match or behind a dot
  induction hn : s.length using Nat.strong_induction_on generalizing s with
  | _ n ih =>
    rw [shallow_eq]
    cases hcut : Bytes.cut? r.trigger (Bytes.ofChars s) with
    | none =>
      refine ⟨s, .done fun i => match?_callPattern_of_not_prefix fun hstart => ?_, rfl⟩
      exact Bytes.not_isPrefix_of_cut?_eq_none hcut _ (isPrefix_drop_ofChars hstart)
    | some q =>
      obtain ⟨x, y⟩ := q
      obtain ⟨before, rest, rfl, rfl, rfl⟩ :=
        exists_chars_of_eq_append_trigger_append (Bytes.eq_of_cut? hcut)
      have hbefore : r.callPattern.NoMatchIn before (r.triggerChars ++ rest) := by
        refine noMatchIn_of_noTriggerIn ?_
        rw [Bytes.ofChars_append, ofChars_triggerChars]
        exact noTriggerIn_of_cut? hcut
      simp only [List.length_append] at hn
      cases hclose : Paren.first? (Bytes.ofChars rest) with
      | none =>
        -- nothing is matched at the dot
        have hdot : r.callPattern.NoMatchIn ['.'] (r.triggerTailChars ++ rest) := by
          intro p hp
          obtain rfl := Nat.lt_one_iff.1 hp
          exact match?_callPattern_append_eq_none r fun a b hab =>
            newline_mem_of_first?_eq_none (hab ▸ hclose)
        obtain ⟨out, hout, htext⟩ := ih (r.triggerTailChars ++ rest).length
          (by simp only [triggerChars, List.length_cons, List.length_append] at hn ⊢; omega) _ rfl
        rw [Bytes.ofChars_append, ofChars_triggerTailChars] at hout htext
        simp only [hclose]
        refine ⟨before ++ (['.'] ++ out), ?_, ?_⟩
        · rw [Edit.replacements_append, Edit.replacements_kept, Nat.zero_add]
          exact (hout.append hdot).append hbefore
        · rw [Bytes.ofChars_append, Bytes.ofChars_append, htext, ← List.append_assoc]
          rfl
      | some i =>
        obtain ⟨a, b, rfl, hparen, hline, htake, hdrop⟩ := exists_chars_of_first? hclose
        simp only [List.length_append, List.length_cons] at hn
        obtain ⟨out, hout, htext⟩ := ih b.length (by omega) b rfl
        have hmatch := match?_callPattern_append r hparen hline b
        have hshorter : b.length < (r.triggerChars ++ (a ++ ')' :: b)).length := by
          simp only [List.length_append, List.length_cons]
          omega
        simp only [hclose, htake, hdrop]
        refine ⟨before ++ (r.renderChars [a] ++ out), ?_, ?_⟩
        · simp only [Edit.replacements_append, Edit.replacements_kept, Edit.replacements_call,
            Nat.zero_add, Nat.add_comm 1]
          exact .next hbefore hmatch hshorter hout
        · rw [Bytes.ofChars_append, Bytes.ofChars_append, ofChars_renderChars, htext]
          rfl

/-- What shallow editing makes of a text, and how often it replaces something, is what comes out
when the matches of the pattern that describes the rule are replaced from left to right. -/
theorem apply_shallow_iff_replaces (r : Rule) (s out : List Char) (n : Nat) :
    (∃ p, read? r.pattern = some p ∧ p.Replaces r.renderChars s out n) ↔
      r.apply .shallow (Bytes.ofChars s) = ⟨Bytes.ofChars out, n⟩ := by
  obtain ⟨out', hreplaces, htext⟩ := exists_replaces_shallow r s
  have hedit : r.apply .shallow (Bytes.ofChars s) =
      ⟨Bytes.ofChars out', (r.shallow (Bytes.ofChars s)).replacements⟩ :=
    Edit.eq_of_text_of_replacements htext.symm rfl
  rw [hedit, read?_pattern, Edit.mk.injEq, Bytes.ofChars_inj]
  constructor
  · rintro ⟨p, hp, h⟩
    obtain rfl := Option.some.inj hp
    exact hreplaces.unique h
  · rintro ⟨rfl, rfl⟩
    exact ⟨_, rfl, hreplaces⟩

end Rule

end CallMigration
