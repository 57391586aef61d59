import BlockLang.Toml.Key

/-!
# Tables in the making

The entries of a document come line by line and each says where it belongs. Until all are there, a
table remembers how it came about, because this decides what can still be added to it.
-/

namespace BlockLang.Toml

/-- How a table came about. -/
inductive Origin where
  /-- It has a header of its own. -/
  | header
  /-- It is on the way to a table that has a header. -/
  | implied
  /-- It is on the way to an entry whose key has dots. -/
  | dotted
deriving Repr, DecidableEq

inductive Node where
  | value (value : Value)
  | table (origin : Origin) (entries : List (String × Node))
  /-- The tables of a list, the latest one first. All of them have headers. -/
  | tables (items : List (List (String × Node)))

abbrev Entries := List (String × Node)

namespace Entries

/-- Changes the entry with the given key, or adds one if there is none. -/
def alter (key : String) (change : Option Node → Option Node) : Entries → Option Entries
  | [] => (change none).map fun node => [(key, node)]
  | (key', node) :: entries =>
    if key' = key then (change (some node)).map fun node => (key', node) :: entries
    else (alter key change entries).map ((key', node) :: ·)

/-- Changes the table at a path. Tables that are missing on the way are made. The way through a
list of tables is through its latest one, and the way of a key with dots is not through a table
that has a header. -/
def descend (dotted : Bool) (change : Origin → Entries → Option Entries) :
    List String → Origin → Entries → Option Entries
  | [], origin, entries => change origin entries
  | key :: path, _, entries =>
    alter key (fun
      | none =>
        let origin := if dotted then .dotted else .implied
        (descend dotted change path origin []).map (.table origin)
      | some (.table origin inner) =>
        if dotted && origin = .header then none
        else (descend dotted change path origin inner).map (.table origin)
      | some (.tables (latest :: earlier)) =>
        (descend dotted change path .header latest).map fun latest => .tables (latest :: earlier)
      | some _ => none) entries

/-- Adds an entry. Nothing can have been there before, and a table that a key with dots ends in has
to be one that came about in this way. -/
def put (path : KeyPath) (value : Value) (entries : Entries) : Option Entries :=
  let add (origin : Origin) (entries : Entries) :=
    if (origin = .dotted) = path.parents.isEmpty then none
    else entries.alter path.name fun
      | none => some (.value value)
      | some _ => none
  entries.descend true add path.parents .header

/-- Opens the table with a header. It can be there only if the header of another one implied it. -/
def openTable (path : KeyPath) (entries : Entries) : Option Entries :=
  let add (_ : Origin) (entries : Entries) :=
    entries.alter path.name fun
      | none => some (.table .header [])
      | some (.table .implied inner) => some (.table .header inner)
      | some _ => none
  entries.descend false add path.parents .header

/-- Opens a further table in a list of tables. -/
def openItem (path : KeyPath) (entries : Entries) : Option Entries :=
  let add (_ : Origin) (entries : Entries) :=
    entries.alter path.name fun
      | none => some (.tables [[]])
      | some (.tables items) => some (.tables ([] :: items))
      | some _ => none
  entries.descend false add path.parents .header

end Entries

mutual

/-- The value that a finished node stands for. -/
def Node.freeze : Node → Value
  | .value v => v
  | .table _ entries => .table (Entries.freeze entries)
  | .tables items => .array (Entries.freezeAll items).reverse

/-- The table that finished entries stand for. -/
def Entries.freeze : List (String × Node) → Table
  | [] => []
  | (key, node) :: entries => (key, node.freeze) :: Entries.freeze entries

def Entries.freezeAll : List (List (String × Node)) → List Value
  | [] => []
  | entries :: items => .table (Entries.freeze entries) :: Entries.freezeAll items

end

/-- A line of a document. -/
inductive Line where
  | pair (path : KeyPath) (value : Value)
  | header (path : KeyPath)
  | itemHeader (path : KeyPath)

/-- The entries of a document as far as it has been read, and the path of its last header. -/
structure Draft where
  entries : Entries := []
  path : List String := []

/-- Adds a line to a document. -/
def Draft.add (draft : Draft) : Line → Option Draft
  | .pair path value => do
    let add (_ : Origin) (inner : Entries) := inner.put path value
    let entries ← draft.entries.descend false add draft.path .header
    return { draft with entries }
  | .header path => do return ⟨← draft.entries.openTable path, path.toList⟩
  | .itemHeader path => do return ⟨← draft.entries.openItem path, path.toList⟩

/-- The table that the lines of a document stand for. -/
def Table.ofLines? (lines : List Line) : Option Table := do
  let draft ← lines.foldlM Draft.add {}
  return Entries.freeze draft.entries

/-- The table that pairs in braces stand for. -/
def Table.ofPairs? (pairs : List (KeyPath × Value)) : Option Table := do
  let entries ← pairs.foldlM (fun entries (path, value) => Entries.put path value entries) []
  return Entries.freeze entries

end BlockLang.Toml
