import BlockLang.Record.Basic

/-!
# Catalog

The blocks and headers that are offered for putting programs together.
-/

namespace BlockLang

/-- What a catalog entry makes: a block, given by its plain form, or a header. -/
inductive Template where
  | block (record : BlockRecord)
  | header (header : Header)

structure CatalogEntry where
  id : String
  name : String
  description : String
  template : Template

namespace CatalogEntry

def statement (id name description text : String) : CatalogEntry :=
  ⟨id, name, description, .block (.statement text false)⟩

def init (id name description : String) (value : Float) : CatalogEntry :=
  ⟨id, name, description, .header (.init ⟨defaultCounter, value⟩)⟩

def condition (id text description : String) : CatalogEntry :=
  ⟨id, text, description, .header (.condition (.ofText text))⟩

def increment (id name description : String) (step : Float) : CatalogEntry :=
  ⟨id, name, description, .header (.increment step)⟩

end CatalogEntry

open CatalogEntry in
def catalog : List CatalogEntry := [
  ⟨"for_loop", "For Loop", "A classic for loop block", .block (.forLoop none none none none [])⟩,
  ⟨"while_loop", "While Loop", "Loop while a condition is true", .block (.whileLoop none [])⟩,
  ⟨"if_else", "If-Else Block", "Branch based on conditions", .block (.ifElse none [] [])⟩,
  statement "add_1" "Add 1" "Increment value by 1" "x += 1;",
  statement "add_2" "Add 2" "Increment value by 2" "x += 2;",
  statement "add_5" "Add 5" "Increment value by 5" "x += 5;",
  statement "add_10" "Add 10" "Increment value by 10" "x += 10;",
  statement "sub_1" "Subtract 1" "Decrement value by 1" "x -= 1;",
  statement "sub_3" "Subtract 3" "Decrement value by 3" "x -= 3;",
  statement "mult_2" "Multiply ×2" "Multiply value by 2" "x *= 2;",
  statement "mult_3" "Multiply ×3" "Multiply value by 3" "x *= 3;",
  statement "mult_5" "Multiply ×5" "Multiply value by 5" "x *= 5;",
  statement "div_2" "Divide ÷2" "Divide value by 2" "x /= 2;",
  statement "div_3" "Divide ÷3" "Divide value by 3" "x /= 3;",
  statement "square" "Square" "Square the value" "x = x * x;",
  statement "mod_2" "Modulo 2" "Remainder when divided by 2" "x = x % 2;",
  ⟨"print", "Print", "Show the current value", .block .print⟩,
  ⟨"break", "Break", "Leave the enclosing loop", .block .leave⟩,
  ⟨"add_loop_var", "Add i", "Add the loop counter to the value", .block (.addCounter none)⟩,
  increment "inc_by_1" "Increment +1" "Increment by 1 in loops" 1,
  increment "inc_by_2" "Increment +2" "Increment by 2 in loops" 2,
  increment "inc_by_5" "Increment +5" "Increment by 5 in loops" 5,
  increment "dec_by_1" "Decrement -1" "Decrement by 1 in loops" (-1),
  increment "dec_by_2" "Decrement -2" "Decrement by 2 in loops" (-2),
  condition "cond_less_10" "x < 10" "True when x less than 10",
  condition "cond_less_20" "x < 20" "True when x less than 20",
  condition "cond_greater_5" "x > 5" "True when x greater than 5",
  condition "cond_greater_50" "x > 50" "True when x greater than 50",
  condition "cond_equal_0" "x === 0" "True when x equals 0",
  condition "cond_mod2_0" "x % 2 === 0" "True when x is even",
  init "init_0" "let i = 0" "Initialize loop at 0" 0,
  init "init_1" "let i = 1" "Initialize loop at 1" 1,
  init "init_5" "let i = 5" "Initialize loop at 5" 5,
  init "init_10" "let i = 10" "Initialize loop at 10" 10,
  statement "double_squared" "Double Squared" "Square the value then double it" "x = x * x * 2;",
  statement "flip_sign" "Flip Sign" "Change value to its opposite" "x = -x;",
  statement "power_of_2" "Power of 2" "Raise 2 to the power of x" "x = Math.pow(2, x);",
  statement "factorial" "Factorial" "Calculate x! (if x <= 12)" "x = x > 12 ? x : factorial(x);"]

def CatalogEntry.find? (id : String) : Option CatalogEntry :=
  catalog.find? (·.id = id)

/-- A new block or header. -/
inductive Item where
  | block (block : Block)
  | header (header : Header)

/-- What the template makes. Nothing comes of the plain form of an empty slot. -/
def Template.make (template : Template) (supply : Supply) : Option Item × Supply :=
  match template with
  | header h => (some (.header h), supply)
  | block record =>
    let (b, supply) := record.build supply
    (b.map .block, supply)

end BlockLang
