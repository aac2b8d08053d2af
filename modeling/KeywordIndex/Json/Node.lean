import KeywordIndex.Json.Token

namespace KeywordIndex.Json

/-!
# Document trees

The tree of a text shows what a reader meets that goes through it from the start: lists and objects hold
what was read of them and how they end, and a broken value takes the place of one that is missing. So
the first fault that a reader meets depends on what it wants.
-/

/-- How a list ends. -/
inductive ListEnd where
  | closed
  | cut
  /-- Something else than a comma follows an item. -/
  | unseparated
  /-- The end follows a comma. -/
  | afterComma
  | cutAfterComma
  deriving DecidableEq, Repr

/-- How an object ends. -/
inductive ObjectEnd where
  | closed
  | cut
  /-- Something else than a comma follows a member. -/
  | unseparated
  /-- Something else than a quote stands in the place of a key. -/
  | badKey
  /-- The end follows a comma. -/
  | afterComma
  | cutAfterComma
  deriving DecidableEq, Repr

mutual

/-- A value of a JSON text. -/
inductive Node where
  | null
  | bool (b : Bool)
  | number (n : Number)
  | string (q : Quote)
  | list (items : Items)
  | object (members : Members)
  | broken (fault : Fault)

/-- The items of a list. -/
inductive Items where
  | nil (ending : ListEnd)
  | cons (item : Node) (rest : Items)

/-- The members of an object. -/
inductive Members where
  | nil (ending : ObjectEnd)
  | cons (key : Quote) (value : Node) (rest : Members)

end

mutual

/-- Reads a value; `fuel` bounds the depth and the number of what it holds. -/
def readValue (fuel : Nat) (ts : List Token) : Node × List Token :=
  match fuel, ts with
  | 0, _ => (.broken .cutValue, [])
  | _, [] => (.broken .cutValue, [])
  | fuel + 1, t :: ts =>
    match t with
    | .openList =>
      let (items, rest) := readFirstItem fuel ts
      (.list items, rest)
    | .openObject =>
      let (members, rest) := readFirstMember fuel ts
      (.object members, rest)
    | .null => (.null, ts)
    | .bool b => (.bool b, ts)
    | .number n => (.number n, ts)
    | .string q => (.string q, ts)
    | .broken fault => (.broken fault, [])
    | _ => (.broken .expectedValue, [])

/-- Reads the items of a list after its opening mark. -/
def readFirstItem (fuel : Nat) (ts : List Token) : Items × List Token :=
  match fuel, ts with
  | 0, _ => (.nil .cut, [])
  | _, [] => (.nil .cut, [])
  | _, .closeList :: rest => (.nil .closed, rest)
  | fuel + 1, _ => readItem fuel ts

/-- Reads an item and those after it. -/
def readItem (fuel : Nat) (ts : List Token) : Items × List Token :=
  match fuel with
  | 0 => (.nil .cut, [])
  | fuel + 1 =>
    let (item, rest) := readValue fuel ts
    let (items, rest) := readMoreItems fuel rest
    (.cons item items, rest)

/-- Reads the items of a list after one of its items. -/
def readMoreItems (fuel : Nat) (ts : List Token) : Items × List Token :=
  match fuel, ts with
  | 0, _ => (.nil .cut, [])
  | _, [] => (.nil .cut, [])
  | _, .closeList :: rest => (.nil .closed, rest)
  | _, [.comma] => (.nil .cutAfterComma, [])
  | _, .comma :: .closeList :: rest => (.nil .afterComma, rest)
  | fuel + 1, .comma :: rest => readItem fuel rest
  | _, rest => (.nil .unseparated, rest)

/-- Reads the members of an object after its opening mark. -/
def readFirstMember (fuel : Nat) (ts : List Token) : Members × List Token :=
  match fuel, ts with
  | 0, _ => (.nil .cut, [])
  | _, [] => (.nil .cut, [])
  | _, .closeObject :: rest => (.nil .closed, rest)
  | fuel + 1, .string key :: rest => readMember fuel key rest
  | _, rest => (.nil .badKey, rest)

/-- Reads a member after its key, and those after it. -/
def readMember (fuel : Nat) (key : Quote) (ts : List Token) : Members × List Token :=
  match fuel, ts with
  | 0, _ => (.nil .cut, [])
  | _, [] => (.cons key (.broken .cutObject) (.nil .cut), [])
  | fuel + 1, .colon :: rest =>
    let (value, rest) := readValue fuel rest
    let (members, rest) := readMoreMembers fuel rest
    (.cons key value members, rest)
  | _, _ => (.cons key (.broken .expectedColon) (.nil .cut), [])

/-- Reads the members of an object after one of its members. -/
def readMoreMembers (fuel : Nat) (ts : List Token) : Members × List Token :=
  match fuel, ts with
  | 0, _ => (.nil .cut, [])
  | _, [] => (.nil .cut, [])
  | _, .closeObject :: rest => (.nil .closed, rest)
  | _, [.comma] => (.nil .cutAfterComma, [])
  | _, .comma :: .closeObject :: rest => (.nil .afterComma, rest)
  | fuel + 1, .comma :: .string key :: rest => readMember fuel key rest
  | _, .comma :: rest => (.nil .badKey, rest)
  | _, rest => (.nil .unseparated, rest)

end

/-- A text with the one value that it begins with. -/
structure Document where
  root : Node
  /-- Whether something follows the value. -/
  trailing : Bool

/-- Reads a text. Every token is met by at most four steps of reading. -/
def Document.ofText (text : List Char) : Document :=
  let ts := tokens text
  let (root, rest) := readValue (4 * ts.length + 1) ts
  ⟨root, !rest.isEmpty⟩

end KeywordIndex.Json
