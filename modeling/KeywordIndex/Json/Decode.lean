import KeywordIndex.Json.Node
import KeywordIndex.Text.Quoted

namespace KeywordIndex.Json

open Text

/-!
# Decoding

A decoder takes the value it wants from a tree or reports the first fault on its way. What it does not
want it passes over, with fewer demands on numbers and quotes. A record is given as an object or as the
list of its fields in the order of their declaration.
-/

/-- Takes a value of a type from a tree. -/
abbrev Decoder (α : Type) := Node → Except Fault α

/-- The fault that a list's end is to a reader that wants its items. -/
def ListEnd.fault? : ListEnd → Option Fault
  | closed => none
  | cut => some .cutList
  | unseparated => some .unseparatedItems
  | afterComma => some .trailingComma
  | cutAfterComma => some .cutValue

/-- The fault that a list's end is to a reader that passes over it. -/
def ListEnd.skimFault? : ListEnd → Option Fault
  | afterComma => some .expectedValue
  | other => other.fault?

/-- The fault that a list's end is to a reader that wants no further item. -/
def ListEnd.surplusFault? : ListEnd → Option Fault
  | unseparated => some .trailingText
  | cutAfterComma => some .trailingText
  | other => other.fault?

/-- The fault that an object's end is to a reader that wants its members. -/
def ObjectEnd.fault? : ObjectEnd → Option Fault
  | closed => none
  | cut => some .cutObject
  | unseparated => some .unseparatedMembers
  | badKey => some .keyNotString
  | afterComma => some .trailingComma
  | cutAfterComma => some .cutValue

/-- The fault that an object's end is to a reader that passes over it. -/
def ObjectEnd.skimFault? : ObjectEnd → Option Fault
  | afterComma => some .keyNotString
  | cutAfterComma => some .cutObject
  | other => other.fault?

/-- Nothing, or the fault if there is one. -/
def pass (fault? : Option Fault) : Except Fault Unit :=
  match fault? with
  | some fault => .error fault
  | none => .ok ()

mutual

/-- Passes over a value. -/
def Node.skim : Node → Except Fault Unit
  | .null => .ok ()
  | .bool _ => .ok ()
  | .number n => n.skim
  | .string q => q.skim
  | .list items => items.skim
  | .object members => members.skim
  | .broken fault => .error fault

/-- Passes over the items of a list. -/
def Items.skim : Items → Except Fault Unit
  | .nil ending => pass ending.skimFault?
  | .cons item rest =>
    match item.skim with
    | .error fault => .error fault
    | .ok () => rest.skim

/-- Passes over the members of an object. -/
def Members.skim : Members → Except Fault Unit
  | .nil ending => pass ending.skimFault?
  | .cons key value rest =>
    match key.skim with
    | .error fault => .error fault
    | .ok () =>
      match value.skim with
      | .error fault => .error fault
      | .ok () => rest.skim

end

/-- The fault of a value where something else is expected. -/
def Node.mistyped (expected : String) : Node → Fault
  | .null => .wrongType "null" expected
  | .bool b => .wrongType s!"boolean `{b}`" expected
  | .number n =>
    match n.value with
    | .error fault => fault
    | .ok value => .wrongType value.description expected
  | .string q =>
    match q.text with
    | .error fault => fault
    | .ok text => .wrongType ("string " ++ quoted text) expected
  | .list _ => .wrongType "sequence" expected
  | .object _ => .wrongType "map" expected
  | .broken fault => fault

namespace Decoder

/-- Takes a text, which is called `expected` if there is none. -/
def text (expected : String) : Decoder String
  | .string q => q.text
  | other => .error (other.mistyped expected)

/-- Takes a text. -/
def string : Decoder String := text "a string"

/-- Takes the text of a path. -/
def path : Decoder String := text "path string"

/-- Takes a truth value. -/
def bool : Decoder Bool
  | .bool b => .ok b
  | other => .error (other.mistyped "a boolean")

/-- Takes a natural number below 2^64, which is called `expected` if there is none. -/
def natural (expected : String) : Decoder Nat
  | .number n =>
    match n.value with
    | .error fault => .error fault
    | .ok (.natural value) => .ok value
    | .ok (.negative value) => .error (.wrongValue (NumberValue.negative value).description expected)
    | .ok (.double value) => .error (.wrongType (NumberValue.double value).description expected)
  | other => .error (other.mistyped expected)

/-- Takes a value that may be `null`. -/
def optional {α : Type} (d : Decoder α) : Decoder (Option α)
  | .null => .ok none
  | other => (d other).map some

/-- Takes the items of a list. -/
def items {α : Type} (d : Decoder α) : Items → Except Fault (List α)
  | .nil ending => (pass ending.fault?).map fun _ => []
  | .cons item rest => do
    let first ← d item
    let others ← items d rest
    return first :: others

/-- Takes a list. -/
def list {α : Type} (d : Decoder α) : Decoder (List α)
  | .list items => Decoder.items d items
  | other => .error (other.mistyped "a sequence")

/-- Takes the members of an object in order. -/
def members {α : Type} (d : Decoder α) : Members → Except Fault (List (String × α))
  | .nil ending => (pass ending.fault?).map fun _ => []
  | .cons key value rest => do
    let key ← key.text
    let first ← d value
    let others ← members d rest
    return (key, first) :: others

/-- Takes the members of an object. -/
def map {α : Type} (d : Decoder α) : Decoder (List (String × α))
  | .object members => Decoder.members d members
  | other => .error (other.mistyped "a map")

/-- The value that goes by the given name. -/
def named {α : Type} (known : List (String × α)) (name : String) : Except Fault α :=
  match known.lookup name with
  | some value => .ok value
  | none => .error (.unknownVariant name (known.map (·.1)))

/-- Takes one of some named values: its name, or an object of one member that maps the name to `null`. -/
def oneOf {α : Type} (known : List (String × α)) : Decoder α
  | .string q => do named known (← q.text)
  | .object (.cons key value (.nil .closed)) => do
    let chosen ← named known (← key.text)
    match value with
    | .null => return chosen
    | other => .error (other.mistyped "unit")
  | .object members => do
    members.skim
    .error (.wrongValue "map" "map with a single key")
  | other => .error (other.mistyped "string or map")

end Decoder

/-- A field of a record of type `σ`. -/
structure RecordField (σ : Type) where
  name : String
  /-- Another name for the field. -/
  otherName : Option String := none
  required : Bool := false
  /-- Puts the value of the field into the record. -/
  set : σ → Decoder σ

/-- How a record is given. -/
structure RecordForm (σ : Type) where
  /-- What the record is called in reports. -/
  title : String
  fields : List (RecordField σ)
  /-- The fault of a list with more items than there are fields, from their number. -/
  surplus : Nat → Fault

/-- The number of items. -/
def Items.length : Items → Nat
  | .nil _ => 0
  | .cons _ rest => rest.length + 1

namespace RecordForm

variable {σ : Type}

/-- The field with the given name. -/
def field? (form : RecordForm σ) (name : String) : Option (RecordField σ) :=
  form.fields.find? fun field => field.name == name || field.otherName == some name

/-- Takes the fields of a record from an object, in the order of its members; `seen` holds the names of
those taken before. -/
def ofMembers (form : RecordForm σ) (seen : List String) (record : σ) : Members → Except Fault σ
  | .nil ending => do
    pass ending.fault?
    match form.fields.find? fun field => field.required && !seen.contains field.name with
    | some missing => .error (.missingField missing.name)
    | none => return record
  | .cons key value rest => do
    match form.field? (← key.text) with
    | none =>
      value.skim
      ofMembers form seen record rest
    | some field =>
      if seen.contains field.name then .error (.duplicateField field.name)
      else ofMembers form (field.name :: seen) (← field.set record value) rest

/-- Takes the given fields of a record from the items of a list, of which `taken` came before. -/
def ofItems (form : RecordForm σ) (taken : Nat) (record : σ) :
    List (RecordField σ) → Items → Except Fault σ
  | [], .nil ending => do
    pass ending.surplusFault?
    return record
  | [], rest => .error (form.surplus (taken + rest.length))
  | fields, .nil ending => do
    pass ending.fault?
    match fields.findIdx? (·.required) with
    | some index =>
      .error (.wrongLength (taken + index) s!"{form.title} with {form.fields.length} elements")
    | none => return record
  | field :: fields, .cons item rest => do
    ofItems form (taken + 1) (← field.set record item) fields rest

/-- Takes a record whose fields are those of `initial` unless they are given. -/
def decoder (form : RecordForm σ) (initial : σ) : Decoder σ
  | .object members => form.ofMembers [] initial members
  | .list items => form.ofItems 0 initial form.fields items
  | other => .error (other.mistyped form.title)

end RecordForm

/-- Takes the one value of a text. -/
def Decoder.read {α : Type} (d : Decoder α) (text : List Char) : Except Fault α := do
  let document := Document.ofText text
  let value ← d document.root
  if document.trailing then .error .trailingText else return value

end KeywordIndex.Json
