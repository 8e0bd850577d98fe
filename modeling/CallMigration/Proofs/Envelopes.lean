import Mathlib.Data.String.Basic
import CallMigration.CommandLine.Program
import CallMigration.Proofs.Decoding

/-!
# What an envelope tells

The line that is printed about a result is read back as an object that holds the whole result: its
data or its error, and nothing else. So two results with the same line are the same.

## Main Definitions

* `Json.InOrder` — the members of every object in the order of their keys, each key once
* `Envelope.Tells` — an object holds a result
* `Envelope.Agree` — two results are the same for a reader

## Main Statements

* `Json.inOrder_sorted`, `Json.sorted_of_inOrder` — sorting gives a value in order, and leaves one
  alone
* `Envelope.line_lossless` — a printed result is read back as what holds it

## Design Notes

The members of an object make up a map, and `Json.sorted` is the form of such a map that is
printed. A value in order is its own form, so for values in order equal forms are equal values.

A line is read back by `Json.decode`, which gives what a JSON text without fractions stands for, and
nothing for any other text: `Json.decode_eq_some_iff`.
-/

namespace CallMigration

namespace Json

/-! ### Values in order -/

mutual

/-- The members of every object are in the order of their keys, and no key occurs twice. -/
def InOrder : Json → Prop
  | null => True
  | bool _ => True
  | int _ => True
  | str _ => True
  | arr items => ItemsInOrder items
  | obj members => (members.map Prod.fst).Pairwise (· < ·) ∧ MembersInOrder members

/-- Each item is in order. -/
def ItemsInOrder : List Json → Prop
  | [] => True
  | item :: rest => InOrder item ∧ ItemsInOrder rest

/-- The value of each member is in order. -/
def MembersInOrder : List (String × Json) → Prop
  | [] => True
  | (_, value) :: rest => InOrder value ∧ MembersInOrder rest

end

variable {key : String} {value : Json} {members : List (String × Json)}

theorem insertMember_of_lt (h : ∀ k ∈ members.map Prod.fst, key < k) :
    insertMember key value members = (key, value) :: members := by
  cases members with
  | nil => rfl
  | cons m rest =>
    obtain ⟨k, v⟩ := m
    have hlt : key < k := h k List.mem_cons_self
    rw [insertMember, if_pos hlt]

theorem mem_keys_insertMember {k : String}
    (h : k ∈ (insertMember key value members).map Prod.fst) :
    k = key ∨ k ∈ members.map Prod.fst := by
  induction members with
  | nil => simpa [insertMember] using h
  | cons m rest ih =>
    obtain ⟨k', v⟩ := m
    rw [insertMember] at h
    split_ifs at h
    all_goals simp only [List.map_cons, List.mem_cons] at h ⊢
    · exact h
    · exact .inr h
    · obtain rfl | h := h
      · exact .inr (.inl rfl)
      · exact (ih h).imp_right .inr

theorem pairwise_insertMember (h : (members.map Prod.fst).Pairwise (· < ·)) :
    ((insertMember key value members).map Prod.fst).Pairwise (· < ·) := by
  induction members with
  | nil => simp [insertMember]
  | cons m rest ih =>
    obtain ⟨k, v⟩ := m
    obtain ⟨hfirst, hrest⟩ := List.pairwise_cons.1 h
    rw [insertMember]
    split_ifs with hlt heq
    · refine List.pairwise_cons.2 ⟨fun k' hk' => ?_, h⟩
      rcases List.mem_cons.1 hk' with rfl | hk'
      · exact hlt
      · exact lt_trans hlt (hfirst k' hk')
    · exact h
    · refine List.pairwise_cons.2 ⟨fun k' hk' => ?_, ih hrest⟩
      rcases mem_keys_insertMember hk' with rfl | hk'
      · exact lt_of_le_of_ne (not_lt.1 hlt) (Ne.symm heq)
      · exact hfirst k' hk'

theorem membersInOrder_insertMember (hvalue : value.InOrder) (h : MembersInOrder members) :
    MembersInOrder (insertMember key value members) := by
  induction members with
  | nil => exact ⟨hvalue, h⟩
  | cons m rest ih =>
    obtain ⟨k, v⟩ := m
    obtain ⟨hv, hrest⟩ := h
    rw [insertMember]
    split_ifs
    · exact ⟨hvalue, hv, hrest⟩
    · exact ⟨hv, hrest⟩
    · exact ⟨hv, ih hrest⟩

mutual

/-- Sorting puts a value in order. -/
theorem inOrder_sorted : ∀ j : Json, j.sorted.InOrder
  | .null => trivial
  | .bool _ => trivial
  | .int _ => trivial
  | .str _ => trivial
  | .arr items => itemsInOrder_sortedItems items
  | .obj members => membersInOrder_sortedMembers members

theorem itemsInOrder_sortedItems : ∀ items : List Json, ItemsInOrder (sortedItems items)
  | [] => trivial
  | item :: rest => ⟨inOrder_sorted item, itemsInOrder_sortedItems rest⟩

theorem membersInOrder_sortedMembers : ∀ members : List (String × Json),
    ((sortedMembers members).map Prod.fst).Pairwise (· < ·) ∧
      MembersInOrder (sortedMembers members)
  | [] => ⟨.nil, trivial⟩
  | (_, value) :: rest =>
    have ih := membersInOrder_sortedMembers rest
    ⟨pairwise_insertMember ih.1, membersInOrder_insertMember (inOrder_sorted value) ih.2⟩

end

mutual

/-- A value in order is left alone by sorting. -/
theorem sorted_of_inOrder : ∀ {j : Json}, j.InOrder → j.sorted = j
  | .null, _ => rfl
  | .bool _, _ => rfl
  | .int _, _ => rfl
  | .str _, _ => rfl
  | .arr _, h => congrArg arr (sortedItems_of_itemsInOrder h)
  | .obj _, h => congrArg obj (sortedMembers_of_membersInOrder h.1 h.2)

theorem sortedItems_of_itemsInOrder : ∀ {items : List Json}, ItemsInOrder items →
    sortedItems items = items
  | [], _ => rfl
  | item :: rest, h => by
    rw [sortedItems, sorted_of_inOrder h.1, sortedItems_of_itemsInOrder h.2]

theorem sortedMembers_of_membersInOrder : ∀ {members : List (String × Json)},
    (members.map Prod.fst).Pairwise (· < ·) → MembersInOrder members →
      sortedMembers members = members
  | [], _, _ => rfl
  | (key, value) :: rest, hkeys, h => by
    obtain ⟨hfirst, hrest⟩ := List.pairwise_cons.1 hkeys
    rw [sortedMembers, sorted_of_inOrder h.1, sortedMembers_of_membersInOrder hrest h.2,
      insertMember_of_lt hfirst]

end

end Json

namespace ErrorCode

theorem text_injective {a b : ErrorCode} (h : a.text = b.text) : a = b := by
  cases a <;> cases b <;> first | rfl | exact absurd h (by decide)

end ErrorCode

namespace Envelope

/-- An object holds a result: whether it succeeded, and its data or its error. -/
inductive Tells : Json → Except Error (Json × Int) → Prop
  | data (data : Json) (code : Int) :
      Tells (.obj [("success", .bool (code = 0)), ("data", data.sorted)]) (.ok (data, code))
  | error {e : Error} (hhints : e.hints = []) :
      Tells (.obj [("success", .bool false), ("error", .obj [("code", .str e.code.text),
        ("message", .str e.message), ("details", e.details.sorted)])]) (.error e)
  | hintedError {e : Error} (hhints : e.hints ≠ []) :
      Tells (.obj [("success", .bool false), ("error", .obj [("code", .str e.code.text),
        ("message", .str e.message), ("details", e.details.sorted),
        ("hints", .arr (e.hints.map fun hint => .obj [("message", .str hint)]))])]) (.error e)

/-- Two results are the same for a reader, who learns of an exit code only whether it is zero. -/
inductive Agree : Except Error (Json × Int) → Except Error (Json × Int) → Prop
  | data {data data' : Json} {code code' : Int} (hdata : data.sorted = data'.sorted)
      (hcode : code = 0 ↔ code' = 0) : Agree (.ok (data, code)) (.ok (data', code'))
  | error {e e' : Error} (hcode : e.code = e'.code) (hmessage : e.message = e'.message)
      (hdetails : e.details.sorted = e'.details.sorted) (hhints : e.hints = e'.hints) :
      Agree (.error e) (.error e')

variable {r r' : Except Error (Json × Int)}

theorem hintMembers_of_ne_nil {hints : List String} (h : hints ≠ []) :
    hintMembers hints =
      [("hints", .arr (hints.map fun hint => .obj [("message", .str hint)]))] := by
  obtain ⟨hint, rest, rfl⟩ := List.exists_cons_of_ne_nil h
  rfl

/-- The envelope of a result holds it. -/
theorem tells_ofResult (r : Except Error (Json × Int)) : Tells (ofResult r) r := by
  cases r with
  | ok q => exact .data q.1 q.2
  | error e =>
    rw [ofResult, ofError]
    by_cases hhints : e.hints = []
    · rw [hhints, hintMembers, List.append_nil]
      exact .error hhints
    · rw [hintMembers_of_ne_nil hhints]
      exact .hintedError hhints

theorem hints_injective {hints hints' : List String}
    (h : hints.map (fun hint => Json.obj [("message", .str hint)]) =
      hints'.map fun hint => .obj [("message", .str hint)]) : hints = hints' :=
  (List.map_inj_right fun a b hab => by simpa using hab).1 h

/-- Objects that hold results are equal only if the results agree. -/
theorem Tells.agree {j j' : Json} (h : Tells j r) (h' : Tells j' r') (hj : j = j') :
    Agree r r' := by
  cases h <;> cases h' <;>
    simp only [Json.obj.injEq, List.cons.injEq, Prod.mk.injEq, Json.bool.injEq, Json.str.injEq,
      Json.arr.injEq, decide_eq_decide, String.reduceEq, reduceCtorEq, true_and, and_true,
      and_false, false_and] at hj
  case data.data => exact .data hj.2 hj.1
  case error.error hhints _ hhints' =>
    exact .error (ErrorCode.text_injective hj.1) hj.2.1 hj.2.2 (hhints.trans hhints'.symm)
  case hintedError.hintedError =>
    exact .error (ErrorCode.text_injective hj.1) hj.2.1 hj.2.2.1 (hints_injective hj.2.2.2)

/-- A printed line is read back as the envelope. -/
theorem decode_line (r : Except Error (Json × Int)) :
    Json.decode (Bytes.ofString (unlines [line r])) = some (ofResult r) := by
  have hnewline : Json.Blank [0x0A] := by simp [Json.Blank, Json.isBlank]
  have hline : unlines [line r] = (ofResult r).pretty ++ "\n" := by
    simp [unlines, line, String.join]
  rw [hline, Bytes.ofString_append]
  exact Json.decode_pretty _ hnewline

/-- The printed line of a result is read back as an object that holds the whole result, and lines of
results that do not agree are not the same. What stands for a value in it is the value in order. -/
theorem line_lossless :
    (∀ r, ∃ j, Json.decode (Bytes.ofString (unlines [line r])) = some j ∧ Tells j r) ∧
      (∀ r r', unlines [line r] = unlines [line r'] → Agree r r') ∧
      ∀ value : Json, value.sorted.InOrder ∧ (value.InOrder → value.sorted = value) := by
  refine ⟨fun r => ⟨_, decode_line r, tells_ofResult r⟩, fun r r' h => ?_,
    fun value => ⟨Json.inOrder_sorted value, Json.sorted_of_inOrder⟩⟩
  have hread := decode_line r
  rw [h, decode_line r'] at hread
  have hsame : ofResult r' = ofResult r := Option.some.inj hread
  exact (tells_ofResult r).agree (tells_ofResult r') hsame.symm

/-- A reader cannot tell one failing exit code from another, and reads `null` as data. -/
theorem line_lossless_exit_codes :
    Agree (.ok (.null, 1)) (.ok (.null, 3)) ∧ Json.null.sorted = .null :=
  ⟨line_lossless.2.1 _ _ rfl, (line_lossless.2.2 .null).2 trivial⟩

end Envelope

end CallMigration
