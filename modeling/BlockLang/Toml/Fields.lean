import BlockLang.Toml.Value

/-!
# Values with fields

What a value means is decided by who reads it. This module reads plain values, and the fields of
values that are made of several parts.
-/

namespace BlockLang.Toml

namespace Value

def string? : Value → Option String
  | string text => some text
  | _ => none

def boolean? : Value → Option Bool
  | boolean b => some b
  | _ => none

/-- A number, which need not be written with a fraction. -/
def number? : Value → Option Float
  | integer n => some (.ofInt n)
  | float a => some a
  | _ => none

/-- A whole number below a bound. -/
def natural? (bound : Nat) : Value → Option Nat
  | integer n => if 0 ≤ n ∧ n < bound then some n.toNat else none
  | _ => none

end Value

/-- Parts of a value with the names of the fields they belong to. -/
abbrev Fields (α : Type) := List (String × α)

/-- What to do about parts of a list that belong to no field. -/
inductive Surplus where
  | ignore
  | refuse
deriving Repr, DecidableEq

/-- The parts of a value, given the names of its fields. A table has them by name and can have
others besides. A list has them in the order of the names; some at the end can be missing. A moment
is a value with parts of its own, none of a name. -/
def Value.fields? (surplus : Surplus) (names : List String) : Value → Option (Fields Value)
  | table entries => some entries
  | array items =>
    if surplus = .refuse ∧ names.length < items.length then none else some (names.zip items)
  | moment _ => some []
  | _ => none

namespace Fields

/-- Reads a field that can be missing. -/
def optional {α β : Type} (fields : Fields α) (name : String) (read : α → Option β) :
    Option (Option β) :=
  match fields.lookup name with
  | some part => (read part).map some
  | none => some none

/-- Reads a field that has to be there. -/
def required {α β : Type} (fields : Fields α) (name : String) (read : α → Option β) : Option β :=
  (fields.lookup name).bind read

/-- Reads a field that has a default. -/
def withDefault {α β : Type} (fields : Fields α) (name : String) (read : α → Option β)
    (default : β) : Option β :=
  (fields.optional name read).map fun found => found.getD default

end Fields

end BlockLang.Toml
