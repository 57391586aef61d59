import BlockLang.Record.Basic
import BlockLang.Toml.Fields
import BlockLang.Toml.Reader
import BlockLang.Toml.Writer

/-!
# Records in TOML

A saved program is a document with the list `slots`. A record is a table with the kind of the block
and its fields; a field that has its default is left out, except that lists are always there.
-/

namespace BlockLang

namespace BlockRecord

/-! ## Writing -/

/-- An entry for a field, if it is there. -/
def entry? {α : Type} (name : String) (value : α → Toml.Value) (field : Option α) : Toml.Table :=
  (field.map fun a => (name, value a)).toList

mutual

/-- The entries for the fields of a record. -/
def entries : BlockRecord → Toml.Table
  | statement text locked =>
    ("text", .string text) :: if locked then [("locked", .boolean true)] else []
  | addCounter name => entry? "name" .string name
  | forLoop counter init condition increment body =>
    entry? "counter" .string counter ++ entry? "init" .float init ++
      entry? "condition" .string condition ++ entry? "increment" .float increment ++
      [("body", .array (tables body))]
  | whileLoop condition body =>
    entry? "condition" .string condition ++ [("body", .array (tables body))]
  | ifElse condition ifPart elsePart =>
    entry? "condition" .string condition ++
      [("if_body", .array (tables ifPart)), ("else_body", .array (tables elsePart))]
  | print | leave | empty => []

def tables : List BlockRecord → List Toml.Value
  | [] => []
  | r :: rs => .table (("kind", .string r.kind) :: r.entries) :: tables rs

end

/-! ## Reading -/

/-- A part of a written record: the value itself, and the records that it lists if it lists any. -/
structure Part where
  value : Toml.Value
  records? : Option (List BlockRecord)

def Part.string? (part : Part) : Option String := part.value.string?

def Part.number? (part : Part) : Option Float := part.value.number?

/-- The names of the fields of a record of some kind, in their order. -/
def fieldNames (kind : String) : List String :=
  match kind with
  | "statement" => ["text", "locked"]
  | "add_loop_variable" => ["name"]
  | "for" => ["counter", "init", "condition", "increment", "body"]
  | "while" => ["condition", "body"]
  | "if_else" => ["condition", "if_body", "else_body"]
  | _ => []

/-- The record with the given kind and fields. Fields that the kind does not have are passed
over. -/
def ofFields? (kind : String) (fields : Toml.Fields Part) : Option BlockRecord :=
  let condition? := fields.optional "condition" Part.string?
  let list? (name : String) := fields.withDefault name Part.records? []
  match kind with
  | "statement" => do
    return .statement (← fields.required "text" Part.string?)
      (← fields.withDefault "locked" (·.value.boolean?) false)
  | "print" => some .print
  | "break" => some .leave
  | "add_loop_variable" => do return .addCounter (← fields.optional "name" Part.string?)
  | "for" => do
    return .forLoop (← fields.optional "counter" Part.string?)
      (← fields.optional "init" Part.number?) (← condition?)
      (← fields.optional "increment" Part.number?) (← list? "body")
  | "while" => do return .whileLoop (← condition?) (← list? "body")
  | "if_else" => do return .ifElse (← condition?) (← list? "if_body") (← list? "else_body")
  | "empty" => some .empty
  | _ => none

/-- The record with the given parts, by name. -/
def ofNamed? (fields : Toml.Fields Part) : Option BlockRecord := do
  ofFields? (← fields.required "kind" Part.string?) fields

/-- The record with the given parts, of which the first is its kind and the others are its fields
in order. Fields at the end can be missing, but there must not be more parts than fields. -/
def ofListed? : List Part → Option BlockRecord
  | [] => none
  | kind :: parts => do
    let kind ← kind.string?
    let names := fieldNames kind
    if parts.length ≤ names.length then ofFields? kind (names.zip parts) else none

mutual

/-- The record that a value stands for. -/
def ofValue? : Toml.Value → Option BlockRecord
  | .table entries => ofNamed? (namedParts entries)
  | .array items => ofListed? (parts items)
  | _ => none

/-- The records that a value lists. -/
def listOfValue? : Toml.Value → Option (List BlockRecord)
  | .array items => ofValues? items
  | _ => none

def ofValues? : List Toml.Value → Option (List BlockRecord)
  | [] => some []
  | item :: items =>
    match ofValue? item, ofValues? items with
    | some r, some rs => some (r :: rs)
    | _, _ => none

def namedParts : List (String × Toml.Value) → List (String × Part)
  | [] => []
  | (name, value) :: entries => (name, ⟨value, listOfValue? value⟩) :: namedParts entries

def parts : List Toml.Value → List Part
  | [] => []
  | item :: items => ⟨item, listOfValue? item⟩ :: parts items

end

/-! ## Documents -/

/-- The text of a saved program. -/
def document (records : List BlockRecord) : String :=
  Toml.write [("slots", .array (tables records))]

/-- The slots that a document lists. -/
def slots? (document : Toml.Table) : Option (List BlockRecord) :=
  Toml.Fields.withDefault document "slots" listOfValue? []

/-- Reads the text of a saved program. -/
def ofDocument? (text : String) : Option (List BlockRecord) := do
  slots? (← Toml.read text)

end BlockRecord

/-- The text of a saved program. -/
def Program.toToml (p : Program) : String :=
  BlockRecord.document p.records

/-- Loads a program from its text. -/
def Program.ofToml? (text : String) (supply : Supply) : Option (Program × Supply) := do
  return Program.ofRecords (← BlockRecord.ofDocument? text) supply

end BlockLang
