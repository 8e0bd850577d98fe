/-!
# JSON values

## Main Definitions

* `Json` — a JSON value without fractions
* `Json.get?` — a member of an object
* `Json.sorted` — the value with the members of every object in the order of their keys

## Design Notes

An object is the list of its members, so that a printer can show them in a chosen order. In a
sorted object each key occurs once; of several members with one key the last one stays.
-/

namespace CallMigration

/-- A JSON value without fractions. -/
inductive Json where
  | null
  | bool (value : Bool)
  | int (value : Int)
  | str (value : String)
  | arr (items : List Json)
  | obj (members : List (String × Json))
  deriving Inhabited, Repr

namespace Json

/-- The value of the member with a key, of an object. -/
def get? (key : String) : Json → Option Json
  | obj members => members.lookup key
  | _ => none

/-- The string that a value is. -/
def string? : Json → Option String
  | str s => some s
  | _ => none

/-- The items of an array. -/
def items? : Json → Option (List Json)
  | arr items => some items
  | _ => none

/-- A list of strings. -/
def strings (ss : List String) : Json := arr (ss.map str)

/-! ### Sorting -/

/-- Adds a member to sorted members whose keys win over it. -/
def insertMember (key : String) (value : Json) :
    List (String × Json) → List (String × Json)
  | [] => [(key, value)]
  | (k, v) :: rest =>
    if key < k then (key, value) :: (k, v) :: rest
    else if key = k then (k, v) :: rest
    else (k, v) :: insertMember key value rest

mutual

/-- The value with the members of every object in the order of their keys. -/
def sorted : Json → Json
  | null => null
  | bool b => bool b
  | int n => int n
  | str s => str s
  | arr items => arr (sortedItems items)
  | obj members => obj (sortedMembers members)

/-- Sorts in each item. -/
def sortedItems : List Json → List Json
  | [] => []
  | item :: rest => sorted item :: sortedItems rest

/-- Sorts members and in each member. -/
def sortedMembers : List (String × Json) → List (String × Json)
  | [] => []
  | (key, value) :: rest => insertMember key (sorted value) (sortedMembers rest)

end

end Json

end CallMigration
