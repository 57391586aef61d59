import BlockLang.Block.Basic

/-!
# Labels

The short texts that blocks and headers are shown with.
-/

namespace BlockLang

/-- A step of a counter, written as a subtraction if it is negative. -/
def incrementLabel (counter : String) (step : Float) : String :=
  if step < 0 then counter ++ " -= " ++ Number.labelText (-step)
  else counter ++ " += " ++ Number.labelText step

def Init.label (init : Init) : String :=
  "let " ++ init.counter ++ " = " ++ Number.labelText init.value

/-- The label of a header that is not in a block. -/
def Header.label : Header → String
  | init i => i.label
  | condition code => code.text
  | increment step => incrementLabel defaultCounter step

/-- The counter that the other headers of a for loop speak of. -/
def ForHeaders.counter (headers : ForHeaders) : String :=
  headers.init.elim defaultCounter Init.counter

/-- What stands in a label for a header that is missing. -/
def emptySlot : String := "?"

def conditionLabel (condition : Option ConditionCode) : String :=
  condition.elim emptySlot Code.text

def Action.label : Action → String
  | statement code => code.text
  | print => "print(x);"
  | leave => "break;"
  | addCounter name => "x += " ++ name ++ ";"

def Block.label : Block → String
  | action _ a => a.label
  | forLoop _ headers _ =>
    "for (" ++ headers.init.elim emptySlot Init.label ++ "; " ++
      conditionLabel headers.condition ++ "; " ++
      headers.increment.elim emptySlot (incrementLabel headers.counter) ++ ")"
  | whileLoop _ condition _ => "while (" ++ conditionLabel condition ++ ")"
  | ifElse _ condition .. => "if (" ++ conditionLabel condition ++ ") \x7b \x7d else \x7b \x7d"

/-- The text of a statement that sets the program variable. Numbers without digits are written
as divisions by zero. -/
def initializerText (value : Float) : String :=
  programVariable ++ " = " ++
    if value.isNaN then "0 / 0"
    else if value.isInf then (if 0 < value then "1 / 0" else "-1 / 0")
    else Number.labelText value

/-- The locked block that begins a program. -/
def Block.initializer (id : BlockId) (value : Float) : Block :=
  .action { id, locked := true } (.statement (.ofText (initializerText value)))

end BlockLang
