import BlockLang.Problem.Basic
import BlockLang.Toml.Fields
import BlockLang.Toml.Reader
import BlockLang.Toml.Writer

/-!
# Problems in TOML

A problem is written with all its fields, apart from a target that it does not have. Only its
initial value has to be there when it is read.
-/

namespace BlockLang.Problem

/-- The entries for the fields of a problem. -/
def entries (problem : Problem) : Toml.Table :=
  [("id", .string problem.id), ("title", .string problem.title),
    ("description", .string problem.description), ("initial_value", .float problem.initialValue)] ++
    (problem.targetValue.map fun target => ("target_value", .float target)).toList ++
    [("precision", .integer problem.precision.toNat)]

/-- The names of the fields of a problem, in their order. -/
def fieldNames : List String :=
  ["id", "title", "description", "initial_value", "target_value", "precision"]

def ofFields? (fields : Toml.Fields Toml.Value) : Option Problem := do
  return {
    id := ← fields.withDefault "id" Toml.Value.string? ""
    title := ← fields.withDefault "title" Toml.Value.string? ""
    description := ← fields.withDefault "description" Toml.Value.string? ""
    initialValue := ← fields.required "initial_value" Toml.Value.number?
    targetValue := ← fields.optional "target_value" Toml.Value.number?
    precision := .ofNat (← fields.withDefault "precision" (Toml.Value.natural? UInt32.size)
      defaultPrecision.toNat) }

/-- The text of a problem. -/
def toToml (problem : Problem) : String :=
  Toml.write problem.entries

/-- Reads the text of a problem. -/
def ofToml? (text : String) : Option Problem := do
  ofFields? (← Toml.read text)

end BlockLang.Problem
