import Mathlib.Data.Fintype.Pigeonhole
import Mathlib.Data.Nat.Digits.Lemmas
import CallMigration.Glob

/-!
# When the search for a glob ends

A search only stores places in the glob and in the path, and at most ten cursors for braces. So it
has fewer configurations than `Glob.configurations`, and one that takes as many steps comes to the
same configuration twice and goes on for ever.

## Main Definitions

* `Glob.Search.InBounds` — all places of a search lie in the glob and in the path
* `Glob.Search.code` — a number for each search
* `Glob.after` — where a search is after some steps

## Main Statements

* `Glob.inBounds_of_step` — a step leads from places in bounds to places in bounds
* `Glob.answer?_eq_none_iff` — the search for a glob has no answer exactly when it never ends
* `Glob.answer?_eq_some_iff` — any answer that it comes to is found

## Design Notes

The number of a search is made of the numbers of its places as digits. No digit is zero, so the
digits can be read off the number, however many braces are open.
-/

namespace CallMigration

namespace Glob

variable {g p : Word} {s s' : Search} {c : Cursor} {m : Mark}

/-! ### Places in bounds -/

/-- A place to go back to lies in the glob, and in the path or behind it. -/
structure Mark.InBounds (g p : Word) (m : Mark) : Prop where
  glob_le : m.glob ≤ g.size
  path_le : m.path ≤ p.size + 1

/-- The places of a cursor lie in the glob and in the path. -/
structure Cursor.InBounds (g p : Word) (c : Cursor) : Prop where
  glob_le : c.glob ≤ g.size
  path_le : c.path ≤ p.size
  wildcard : c.wildcard.InBounds g p
  globstar : c.globstar.InBounds g p

/-- All places of a search lie in the glob and in the path, and not too many braces are open. -/
structure Search.InBounds (g p : Word) (s : Search) : Prop where
  cursor : s.cursor.InBounds g p
  braces : ∀ b ∈ s.braces, b.InBounds g p
  length_le : s.braces.length ≤ braceLimit
  longest_le : s.longest ≤ p.size

/-- The search that an attempt leads to is in bounds. -/
def Attempt.InBounds (g p : Word) : Attempt → Prop
  | advanced s => s.InBounds g p
  | stuck s => s.InBounds g p
  | invalid => True

theorem Mark.inBounds_default (g p : Word) : Mark.InBounds g p {} :=
  ⟨Nat.zero_le _, Nat.zero_le _⟩

theorem Cursor.InBounds.retry (h : c.InBounds g p) (hset : c.wildcard.IsSet p) :
    c.retry.InBounds g p :=
  ⟨h.wildcard.glob_le, hset.2, h.wildcard, h.globstar⟩

/-- A cursor whose wildcards are forgotten. -/
theorem Cursor.inBounds_mk {i j : Nat} (hi : i ≤ g.size) (hj : j ≤ p.size) :
    Cursor.InBounds g p ⟨i, j, {}, {}⟩ :=
  ⟨hi, hj, Mark.inBounds_default g p, Mark.inBounds_default g p⟩

theorem Cursor.InBounds.withPlaces (h : c.InBounds g p) {i j : Nat} (hi : i ≤ g.size)
    (hj : j ≤ p.size) : Cursor.InBounds g p { c with glob := i, path := j } :=
  ⟨hi, hj, h.wildcard, h.globstar⟩

theorem Search.InBounds.withCursor (h : s.InBounds g p) (hc : c.InBounds g p) :
    Search.InBounds g p { s with cursor := c } :=
  ⟨hc, h.braces, h.length_le, h.longest_le⟩

theorem Search.InBounds.leave (h : s.InBounds g p) : s.leave.InBounds g p := by
  unfold Search.leave
  split
  · exact h
  next b braces hbraces =>
    obtain ⟨hcursor, hall, hlength, hlongest⟩ := h
    rw [hbraces] at hall hlength
    obtain ⟨hb, hall⟩ := List.forall_mem_cons.1 hall
    refine ⟨⟨hcursor.glob_le, hlongest, hb.wildcard, hb.globstar⟩, hall, ?_, ?_⟩
    · exact (Nat.le_succ _).trans hlength
    · dsimp only
      split
      · exact Nat.zero_le _
      · exact hlongest

/-! ### Parts of a glob -/

theorem lt_size_of_getElem? {w : Word} {i : Nat} {b : UInt8} (h : w[i]? = some b) : i < w.size :=
  (Array.getElem?_eq_some_iff.1 h).1

theorem skipGlobstars_le {i : Nat} (h : i ≤ g.size) : skipGlobstars g i ≤ g.size := by
  fun_induction skipGlobstars g i with
  | case1 i hi _ ih => exact ih (by omega)
  | case2 => exact h
  | case3 => exact h

theorem literalAt_lt {i j : Nat} {b : UInt8} (h : literalAt g i = some (b, j)) : j < g.size := by
  unfold literalAt at h
  split at h
  · cases h
  next b' hb' =>
    split_ifs at h with hescape
    · obtain ⟨c, hc, heq⟩ := Option.map_eq_some_iff.1 h
      cases heq
      exact lt_size_of_getElem? hc
    · cases h
      exact lt_size_of_getElem? hb'

/-- The rest of alternatives ends in the glob. -/
def Ending.InBounds (g : Word) : Ending → Prop
  | comma next => next ≤ g.size
  | brace next => next ≤ g.size
  | missing => True

/-- A backslash at the end of the glob is skipped with the byte that is not there, but then the
braces are not closed. -/
theorem inBounds_skipBraces {stop inSet : Bool} {depth i : Nat} (h : depth = 0 → i ≤ g.size) :
    (skipBraces g stop depth inSet i).InBounds g := by
  fun_induction skipBraces g stop depth inSet i with
  | case1 => exact h rfl
  | case3 inSet i hi depth b _ _ ih => exact ih fun _ => hi
  | case4 inSet i hi => exact hi
  | case11 => exact h rfl
  | case12 => trivial
  | _ =>
    rename_i ih
    exact ih nofun

theorem readSet_le {x : UInt8} {first hit isIn : Bool} {i next : Nat}
    (h : readSet g x first hit i = .known next isIn) : next ≤ g.size := by
  fun_induction readSet g x first hit i with
  | case1 first hit i hi =>
    cases h
    exact hi
  | case4 first hit i hi _ low j _ _ high k _ ih => exact ih h
  | case5 first hit i hi _ low j _ _ ih => exact ih h
  | _ => cases h

/-! ### Attempts -/

theorem inBounds_afterStar (h : c.InBounds g p) (hlt : c.glob < g.size) :
    (afterStar c).InBounds g p :=
  ⟨hlt, h.path_le, ⟨h.glob_le, Nat.succ_le_succ h.path_le⟩, h.globstar⟩

theorem inBounds_afterGlobstar (h : c.InBounds g p) (hlt : c.glob + 1 < g.size) :
    (afterGlobstar g p c).InBounds g p := by
  have hle := le_skipGlobstars g (c.glob + 2)
  have hsize : skipGlobstars g (c.glob + 2) ≤ g.size := skipGlobstars_le hlt
  have hmark : Mark.InBounds g p ⟨skipGlobstars g (c.glob + 2) - 2, c.path + 1⟩ :=
    ⟨(Nat.sub_le _ _).trans hsize, Nat.succ_le_succ h.path_le⟩
  have hbehind : skipGlobstars g (c.glob + 2) - 2 + 2 = skipGlobstars g (c.glob + 2) := by omega
  unfold afterGlobstar
  simp only [hbehind]
  split_ifs with hend hslash hstart
  · exact ⟨hsize, h.path_le, hmark, hmark⟩
  · exact ⟨lt_size_of_getElem? hslash.2, h.path_le, hmark, hmark⟩
  · exact ⟨hsize, h.path_le, hmark, hmark⟩
  · exact ⟨hsize, h.path_le, hmark, h.globstar⟩

theorem inBounds_endStar (h : c.InBounds g p) : (endStar p c).InBounds g p := by
  unfold endStar
  split_ifs with hslash hset
  · exact ⟨h.globstar.glob_le, h.path_le, ⟨h.globstar.glob_le, h.wildcard.path_le⟩, h.globstar⟩
  · exact ⟨h.glob_le, h.path_le, ⟨h.wildcard.glob_le, Nat.zero_le _⟩, h.globstar⟩
  · exact h

theorem inBounds_takeStar (h : s.InBounds g p) (hlt : s.cursor.glob < g.size) :
    (takeStar g p s).InBounds g p := by
  have hc : (endStar p (if g[s.cursor.glob + 1]? = some star then afterGlobstar g p s.cursor
      else afterStar s.cursor)).InBounds g p := by
    refine inBounds_endStar ?_
    split_ifs with hstar
    · exact inBounds_afterGlobstar h.cursor (lt_size_of_getElem? hstar)
    · exact inBounds_afterStar h.cursor hlt
  unfold takeStar
  dsimp only
  generalize endStar p _ = c at hc ⊢
  have hending : (skipBraces g false 1 false c.glob).InBounds g := inBounds_skipBraces nofun
  split
  · split
    · trivial
    all_goals
      next next hnext =>
        rw [hnext] at hending
        exact h.withCursor (hc.withPlaces hending hc.path_le)
  · exact h.withCursor hc

theorem inBounds_takeSet (h : s.InBounds g p) : (takeSet g p s).InBounds g p := by
  unfold takeSet
  dsimp only
  split
  · exact h
  next x hx =>
    split
    · trivial
    next next isIn hread =>
      have hnext := readSet_le hread
      split_ifs
      · exact h.withCursor (h.cursor.withPlaces hnext (lt_size_of_getElem? hx))
      · exact h.withCursor (h.cursor.withPlaces hnext h.cursor.path_le)

theorem inBounds_takeQuestion (h : s.InBounds g p) (hlt : s.cursor.glob < g.size) :
    (takeQuestion p s).InBounds g p := by
  unfold takeQuestion
  dsimp only
  split_ifs with hbyte
  · obtain ⟨x, hx⟩ := Option.ne_none_iff_exists'.1 hbyte.1
    exact h.withCursor (h.cursor.withPlaces hlt (lt_size_of_getElem? hx))
  · exact h

theorem inBounds_takeOpenBrace (h : s.InBounds g p) (hlt : s.cursor.glob < g.size) :
    (takeOpenBrace s).InBounds g p := by
  unfold takeOpenBrace
  dsimp only
  split_ifs with hlimit
  · trivial
  · refine ⟨Cursor.inBounds_mk hlt h.cursor.path_le, ?_, ?_, h.longest_le⟩
    · exact List.forall_mem_cons.2 ⟨h.cursor, h.braces⟩
    · exact Nat.lt_of_le_of_ne h.length_le hlimit

theorem inBounds_takeCloseBrace (h : s.InBounds g p) (hlt : s.cursor.glob < g.size) :
    (takeCloseBrace s).InBounds g p := by
  refine Search.InBounds.leave ⟨h.cursor.withPlaces hlt h.cursor.path_le, h.braces, h.length_le, ?_⟩
  exact Nat.max_le.2 ⟨h.longest_le, h.cursor.path_le⟩

theorem inBounds_takeComma (h : s.InBounds g p) (hlt : s.cursor.glob < g.size)
    (hc : c ∈ s.braces) : (takeComma s c).InBounds g p :=
  ⟨Cursor.inBounds_mk hlt (h.braces c hc).path_le, h.braces, h.length_le,
    Nat.max_le.2 ⟨h.longest_le, h.cursor.path_le⟩⟩

theorem Search.path_leave (hopen : s.braces ≠ []) : s.leave.cursor.path = s.longest := by
  obtain ⟨b, braces, hbraces⟩ := List.exists_cons_of_ne_nil hopen
  rw [Search.leave, hbraces]

/-- Behind a byte that was matched, a search is in bounds. -/
theorem Search.InBounds.matched (h : s.InBounds g p) {i : Nat} (hi : i < g.size)
    (hpath : s.cursor.path < p.size) (b : UInt8) :
    Search.InBounds g p { s with
      cursor := { s.cursor with
        glob := i + 1
        path := s.cursor.path + 1
        globstar := if b = Bytes.slash then s.cursor.globstar
          else { s.cursor.globstar with path := 0 } } } := by
  refine h.withCursor ⟨hi, hpath, h.cursor.wildcard, ?_⟩
  dsimp only
  split_ifs
  · exact h.cursor.globstar
  · exact ⟨h.cursor.globstar.glob_le, Nat.zero_le _⟩

theorem inBounds_takeLiteral (h : s.InBounds g p) : (takeLiteral g p s).InBounds g p := by
  unfold takeLiteral
  dsimp only
  split
  · exact h
  next x hx =>
    have hpath : s.cursor.path < p.size := lt_size_of_getElem? hx
    split
    · trivial
    next b i hliteral =>
      have hi := literalAt_lt hliteral
      have hs := h.withCursor (h.cursor.withPlaces hi.le h.cursor.path_le)
      split
      · split
        next hcloses =>
          -- an alternative is left where it has matched last
          have hleft : Search.InBounds g p { s with
              cursor := { s.cursor with glob := i }
              longest := s.cursor.path } :=
            ⟨hs.cursor, hs.braces, hs.length_le, h.cursor.path_le⟩
          exact hleft.leave.matched hi (lt_of_eq_of_lt (Search.path_leave hcloses.1) hpath) b
        · exact hs.matched hi hpath b
      · exact hs

theorem inBounds_attempt (h : s.InBounds g p) : (attempt g p s).InBounds g p := by
  unfold attempt
  split
  · exact h
  next b hb =>
    have hlt := lt_size_of_getElem? hb
    split
    · exact inBounds_takeStar h hlt
    split
    · exact inBounds_takeQuestion h hlt
    split
    · exact inBounds_takeSet h
    split
    · split
      · exact inBounds_takeOpenBrace h hlt
      · exact h
    split
    · exact inBounds_takeLiteral h
    next start braces hbraces =>
      split
      · exact inBounds_takeCloseBrace h hlt
      split
      · exact inBounds_takeComma h hlt (hbraces ▸ List.mem_cons_self)
      · exact inBounds_takeLiteral h

theorem inBounds_of_backtrack (h : s.InBounds g p) (hback : backtrack g p s = some (some s')) :
    s'.InBounds g p := by
  unfold backtrack at hback
  split at hback
  next hset =>
    cases hback
    exact h.withCursor (h.cursor.retry hset)
  split at hback
  · cases hback
  next start braces hbraces =>
    obtain ⟨hstart, hall⟩ := List.forall_mem_cons.1 (hbraces ▸ h.braces)
    have hlength : braces.length ≤ braceLimit := by
      have hlength := h.length_le
      rw [hbraces, List.length_cons] at hlength
      omega
    have hending : (skipBraces g true 1 false s.cursor.glob).InBounds g :=
      inBounds_skipBraces nofun
    split at hback
    · cases hback
    next next hnext =>
      rw [hnext] at hending
      cases hback
      exact h.withCursor (h.cursor.withPlaces hending hstart.path_le)
    next next hnext =>
      rw [hnext] at hending
      split_ifs at hback with hlongest hset
      · cases hback
        exact (h.withCursor (h.cursor.withPlaces hending h.cursor.path_le)).leave
      · cases hback
        exact ⟨hstart.retry hset, hall, hlength, h.longest_le⟩
      · cases hback

/-- A step leads from places in bounds to places in bounds. -/
theorem inBounds_of_step {negated : Bool} (h : s.InBounds g p)
    (hstep : step g p negated s = .going s') : s'.InBounds g p := by
  have hattempt := inBounds_attempt h
  unfold step at hstep
  split_ifs at hstep
  split at hstep
  next u hu =>
    cases hstep
    rwa [hu] at hattempt
  · cases hstep
  next u hu =>
    rw [hu] at hattempt
    split at hstep
    · cases hstep
    · cases hstep
    next u' hback =>
      cases hstep
      exact inBounds_of_backtrack hattempt hback

/-! ### Numbers of searches -/

/-- A number for a place to go back to, which is not zero. -/
def Mark.code (p : Word) (m : Mark) : Nat := m.glob * (p.size + 2) + m.path + 1

/-- The numbers of the places of a cursor. -/
def Cursor.codes (p : Word) (c : Cursor) : List Nat :=
  [Mark.code p ⟨c.glob, c.path⟩, c.wildcard.code p, c.globstar.code p]

/-- The numbers of all places of a search. -/
def Search.codes (p : Word) (s : Search) : List Nat :=
  (s.longest + 1) :: (s.cursor :: s.braces).flatMap (Cursor.codes p)

/-- A number that the numbers of places are below. -/
def base (g p : Word) : Nat := (g.size + 2) * (p.size + 2)

/-- A number for each search. -/
def Search.code (g p : Word) (s : Search) : Nat := Nat.ofDigits (base g p) (s.codes p)

theorem Mark.InBounds.code_lt (h : m.InBounds g p) : m.code p < base g p := by
  obtain ⟨hglob, hpath⟩ := h
  calc m.glob * (p.size + 2) + m.path + 1 < m.glob * (p.size + 2) + 2 * (p.size + 2) := by omega
    _ ≤ g.size * (p.size + 2) + 2 * (p.size + 2) := by gcongr
    _ = base g p := by rw [base, Nat.add_mul]

/-- The number of a place tells the place. -/
theorem Mark.InBounds.eq_of_code_eq {m' : Mark} (h : m.InBounds g p) (h' : m'.InBounds g p)
    (hcode : m.code p = m'.code p) : m = m' := by
  have hplaces {m : Mark} (h : m.InBounds g p) :
      (m.code p - 1) / (p.size + 2) = m.glob ∧ (m.code p - 1) % (p.size + 2) = m.path := by
    refine (Nat.div_mod_unique (Nat.succ_pos _)).2 ⟨?_, Nat.lt_succ_of_le h.path_le⟩
    rw [Mark.code, Nat.add_sub_cancel, Nat.add_comm, Nat.mul_comm]
  obtain ⟨hglob, hpath⟩ := hplaces h
  rw [hcode] at hglob hpath
  obtain ⟨hglob', hpath'⟩ := hplaces h'
  cases m
  cases m'
  exact Mark.mk.injEq .. ▸ ⟨hglob.symm.trans hglob', hpath.symm.trans hpath'⟩

theorem Cursor.InBounds.here (h : c.InBounds g p) : Mark.InBounds g p ⟨c.glob, c.path⟩ :=
  ⟨h.glob_le, h.path_le.trans (Nat.le_succ _)⟩

theorem Cursor.InBounds.codes_lt (h : c.InBounds g p) : ∀ n ∈ c.codes p, n < base g p := by
  simp only [Cursor.codes, List.forall_mem_cons]
  exact ⟨h.here.code_lt, h.wildcard.code_lt, h.globstar.code_lt, nofun⟩

/-- The numbers of cursors tell the cursors. -/
theorem eq_of_flatMap_codes_eq {cs ds : List Cursor} (hcs : ∀ c ∈ cs, c.InBounds g p)
    (hds : ∀ d ∈ ds, d.InBounds g p)
    (h : cs.flatMap (Cursor.codes p) = ds.flatMap (Cursor.codes p)) : cs = ds := by
  induction cs generalizing ds with
  | nil =>
    cases ds with
    | nil => rfl
    | cons d ds => cases h
  | cons c cs ih =>
    cases ds with
    | nil => cases h
    | cons d ds =>
      obtain ⟨hc, hcs⟩ := List.forall_mem_cons.1 hcs
      obtain ⟨hd, hds⟩ := List.forall_mem_cons.1 hds
      simp only [List.flatMap_cons, Cursor.codes, List.cons_append, List.nil_append,
        List.cons.injEq] at h
      obtain ⟨hhere, hwildcard, hglobstar, hrest⟩ := h
      have hhere := hc.here.eq_of_code_eq hd.here hhere
      have hwildcard := hc.wildcard.eq_of_code_eq hd.wildcard hwildcard
      have hglobstar := hc.globstar.eq_of_code_eq hd.globstar hglobstar
      rw [ih hcs hds hrest]
      cases c
      cases d
      simp_all

theorem Search.InBounds.cursors (h : s.InBounds g p) :
    ∀ c ∈ s.cursor :: s.braces, c.InBounds g p :=
  List.forall_mem_cons.2 ⟨h.cursor, h.braces⟩

theorem Search.InBounds.codes_lt (h : s.InBounds g p) : ∀ n ∈ s.codes p, n < base g p := by
  refine List.forall_mem_cons.2 ⟨?_, fun n hn => ?_⟩
  · calc s.longest + 1 < 2 * (p.size + 2) := by have := h.longest_le; omega
      _ ≤ base g p := Nat.mul_le_mul_right _ (Nat.le_add_left _ _)
  · obtain ⟨c, hc, hn⟩ := List.mem_flatMap.1 hn
    exact (h.cursors c hc).codes_lt n hn

theorem Search.ne_zero_of_mem_codes {n : Nat} (h : n ∈ s.codes p) : n ≠ 0 := by
  simp only [Search.codes, Cursor.codes, Mark.code, List.mem_cons, List.mem_flatMap,
    List.not_mem_nil, or_false] at h
  obtain rfl | ⟨c, -, rfl | rfl | rfl⟩ := h <;> exact Nat.succ_ne_zero _

theorem Search.InBounds.length_codes_le (h : s.InBounds g p) : (s.codes p).length ≤ 34 := by
  have hthree : ∀ cs : List Cursor, (cs.flatMap (Cursor.codes p)).length = 3 * cs.length := by
    intro cs
    induction cs with
    | nil => rfl
    | cons c cs ih =>
      rw [List.flatMap_cons, List.length_append, ih, List.length_cons, Cursor.codes]
      simp only [List.length_cons, List.length_nil]
      omega
  have hlength : s.braces.length ≤ 10 := h.length_le
  rw [Search.codes, List.length_cons, hthree, List.length_cons]
  omega

theorem one_lt_base (g p : Word) : 1 < base g p :=
  calc 1 < 2 * 2 := by decide
    _ ≤ base g p := Nat.mul_le_mul (Nat.le_add_left _ _) (Nat.le_add_left _ _)

/-- There are fewer searches in bounds than configurations are counted. -/
theorem Search.InBounds.code_lt (h : s.InBounds g p) : s.code g p < configurations g p := by
  have hpow : configurations g p = base g p ^ 34 := by rw [configurations, base, Nat.pow_eq]
  calc s.code g p < base g p ^ (s.codes p).length :=
        Nat.ofDigits_lt_base_pow_length (one_lt_base g p) h.codes_lt
    _ ≤ base g p ^ 34 := Nat.pow_le_pow_right (one_lt_base g p).le h.length_codes_le
    _ = configurations g p := hpow.symm

/-- The number of a search tells the search. -/
theorem Search.InBounds.eq_of_code_eq (h : s.InBounds g p) (h' : s'.InBounds g p)
    (hcode : s.code g p = s'.code g p) : s = s' := by
  have hdigits {s : Search} (h : s.InBounds g p) :
      Nat.digits (base g p) (s.code g p) = s.codes p :=
    Nat.digits_ofDigits _ (one_lt_base g p) _ h.codes_lt fun _ =>
      Search.ne_zero_of_mem_codes (List.getLast_mem _)
  have hcodes : s.codes p = s'.codes p := by rw [← hdigits h, hcode, hdigits h']
  obtain ⟨hlongest, hcursors⟩ := List.cons.inj hcodes
  obtain ⟨hcursor, hbraces⟩ :=
    List.cons.inj (eq_of_flatMap_codes_eq h.cursors h'.cursors hcursors)
  cases s
  cases s'
  simp_all

/-! ### Runs -/

/-- Where a search is after some steps, if it is not over. -/
def after (g p : Word) (negated : Bool) : Nat → Search → Option Search
  | 0, s => some s
  | n + 1, s =>
    match step g p negated s with
    | .over _ => none
    | .going s => after g p negated n s

variable {negated : Bool}

/-- A run has no answer as long as the search goes on. -/
theorem run_eq_none_iff (n : Nat) (s : Search) :
    run g p negated n s = none ↔ (after g p negated n s).isSome := by
  induction n generalizing s with
  | zero => exact iff_of_true rfl rfl
  | succ n ih =>
    rw [run, after]
    rcases step g p negated s with u | isMatch
    · exact ih u
    · simp

/-- All runs that come to an answer come to the same one. -/
theorem run_eq_of_run_eq_some {m n : Nat} {b b' : Bool} (h : run g p negated m s = some b)
    (h' : run g p negated n s = some b') : some b = some b' := by
  induction m generalizing n s with
  | zero => cases h
  | succ m ih =>
    cases n with
    | zero => cases h'
    | succ n =>
      rw [run] at h h'
      rcases hstep : step g p negated s with u | isMatch
      · rw [hstep] at h h'
        exact ih h h'
      · rw [hstep] at h h'
        exact h.symm.trans h'

theorem after_add (m n : Nat) (s : Search) :
    after g p negated (m + n) s = (after g p negated m s).bind (after g p negated n) := by
  induction m generalizing s with
  | zero => rw [Nat.zero_add, after, Option.bind_some]
  | succ m ih =>
    rw [Nat.succ_add, after, after]
    rcases step g p negated s with u | isMatch
    · exact ih u
    · rfl

/-- A search that goes on for some steps goes on for fewer. -/
theorem isSome_after_of_le {m n : Nat} (hle : m ≤ n) (h : (after g p negated n s).isSome) :
    (after g p negated m s).isSome := by
  obtain ⟨k, rfl⟩ := Nat.exists_eq_add_of_le hle
  rw [after_add] at h
  exact Option.isSome_of_isSome_bind h

theorem inBounds_of_after {n : Nat} (h : s.InBounds g p)
    (hafter : after g p negated n s = some s') : s'.InBounds g p := by
  induction n generalizing s with
  | zero =>
    cases hafter
    exact h
  | succ n ih =>
    rw [after] at hafter
    split at hafter
    · cases hafter
    next u hstep => exact ih (inBounds_of_step h hstep) hafter

/-- A search that comes back to where it was goes on for ever. -/
theorem after_mul_of_loop {n : Nat} (h : after g p negated n s = some s) (k : Nat) :
    after g p negated (k * n) s = some s := by
  induction k with
  | zero => rw [Nat.zero_mul, after]
  | succ k ih => rw [Nat.succ_mul, after_add, ih, Option.bind_some, h]

/-- A search that is in one place twice goes on for ever. -/
theorem isSome_after_of_lt {i j : Nat} {u : Search} (hi : after g p negated i s = some u)
    (hj : after g p negated j s = some u) (hlt : i < j) (n : Nat) :
    (after g p negated n s).isSome := by
  have hloop : after g p negated (j - i) u = some u := by
    rw [← hj, ← Nat.add_sub_of_le hlt.le, after_add, hi, Option.bind_some,
      Nat.add_sub_of_le hlt.le]
  have hlater : after g p negated (i + n * (j - i)) s = some u := by
    rw [after_add, hi, Option.bind_some, after_mul_of_loop hloop]
  refine isSome_after_of_le ?_ (Option.isSome_of_eq_some hlater)
  calc n ≤ n * (j - i) := Nat.le_mul_of_pos_right n (Nat.sub_pos_of_lt hlt)
    _ ≤ i + n * (j - i) := Nat.le_add_left _ _

/-- A search that takes as many steps as it has configurations never ends. -/
theorem isSome_after_of_configurations (h : s.InBounds g p)
    (hgoing : (after g p negated (configurations g p) s).isSome) (n : Nat) :
    (after g p negated n s).isSome := by
  -- two of the searches in between have the same number, so they are the same
  have hstate : ∀ i : Fin (configurations g p + 1), ∃ u, after g p negated i s = some u := fun i =>
    Option.isSome_iff_exists.1 (isSome_after_of_le (Nat.le_of_lt_succ i.2) hgoing)
  choose f hf using hstate
  have hbounds (i) : (f i).InBounds g p := inBounds_of_after h (hf i)
  obtain ⟨i, j, hne, hcode⟩ := Fintype.exists_ne_map_eq_of_card_lt
    (fun i => (⟨(f i).code g p, (hbounds i).code_lt⟩ : Fin (configurations g p))) (by simp)
  have hsame : f i = f j := (hbounds i).eq_of_code_eq (hbounds j) (Fin.mk.inj hcode)
  rcases lt_or_gt_of_ne hne with hlt | hlt
  · exact isSome_after_of_lt (hf i) (hsame ▸ hf j) hlt n
  · exact isSome_after_of_lt (hf j) (hsame ▸ hf i) hlt n

/-! ### Answers -/

theorem inBounds_start (glob path : Bytes) :
    (start glob).InBounds glob.toArray path.toArray := by
  refine ⟨Cursor.inBounds_mk ?_ (Nat.zero_le _), nofun, Nat.zero_le _, Nat.zero_le _⟩
  rw [List.size_toArray]
  exact (List.takeWhile_prefix _).length_le

/-- The search for a glob has no answer exactly when it never ends. -/
theorem answer?_eq_none_iff (glob path : Bytes) :
    answer? glob path = none ↔
      ∀ n, run glob.toArray path.toArray (isNegated glob) n (start glob) = none := by
  simp only [answer?, run_eq_none_iff]
  exact ⟨isSome_after_of_configurations (inBounds_start glob path), fun h => h _⟩

/-- Any answer that the search for a glob comes to is found. -/
theorem answer?_eq_some_iff (glob path : Bytes) (isMatch : Bool) :
    answer? glob path = some isMatch ↔
      ∃ n, run glob.toArray path.toArray (isNegated glob) n (start glob) = some isMatch := by
  constructor
  · exact fun h => ⟨_, h⟩
  · rintro ⟨n, hn⟩
    cases hanswer : answer? glob path with
    | none =>
      rw [(answer?_eq_none_iff glob path).1 hanswer n] at hn
      cases hn
    | some isMatch' => rw [run_eq_of_run_eq_some hanswer hn]

end Glob

end CallMigration
