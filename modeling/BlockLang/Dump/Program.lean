import BlockLang.Dump.Basic
import BlockLang.Number.Text
import BlockLang.Program.Basic

/-!
# Dumps of programs

The tree of blocks of a program, with the expressions that its texts stand for and the errors of
those that stand for none.
-/

namespace BlockLang

def Dump.number (a : Float) : Dump := .atom (.ofList (Number.dump.write a))

def Span.dump (span : Span) : Dump :=
  .atom (Nat.repr span.start ++ ".." ++ Nat.repr span.stop)

/-! ## Expressions -/

def UnaryOp.dump : UnaryOp → Dump
  | negate => .atom "Negation"
  | not => .atom "LogicalNot"

def BinaryOp.dump : BinaryOp → Dump
  | add => .atom "Addition"
  | subtract => .atom "Subtraction"
  | multiply => .atom "Multiplication"
  | divide => .atom "Division"
  | modulo => .atom "Modulo"
  | and => .atom "LogicalAnd"
  | or => .atom "LogicalOr"
  | equal => .atom "Equality"
  | notEqual => .atom "Inequality"
  | greater => .atom "GreaterThan"
  | less => .atom "LessThan"
  | greaterOrEqual => .atom "GreaterThanOrEqual"
  | lessOrEqual => .atom "LessThanOrEqual"

def Builtin.dump : Builtin → Dump
  | pow => .atom "Pow"
  | floor => .atom "Floor"
  | ceil => .atom "Ceil"
  | round => .atom "Round"
  | abs => .atom "Abs"
  | sqrt => .atom "Sqrt"
  | min => .atom "Min"
  | max => .atom "Max"
  | factorial => .atom "Factorial"

mutual

def Expr.dump : Expr → Dump
  | .number a => .tuple "NumberLiteral" [.number a]
  | .boolean b => .tuple "BooleanLiteral" [.boolean b]
  | .name n span => .tuple "VariableReference" [.string n, span.dump]
  | .call f arguments span =>
    .record "Call" [("function", f.dump), ("arguments", .list (Expr.dumps arguments)),
      ("span", span.dump)]
  | .unary op operand =>
    .record "UnaryOperation" [("operator", op.dump), ("operand", operand.dump)]
  | .binary op left right =>
    .record "BinaryOperation" [("operator", op.dump), ("left", left.dump), ("right", right.dump)]
  | .choice condition yes no =>
    .record "Conditional" [("condition", condition.dump), ("true_branch", yes.dump),
      ("false_branch", no.dump)]

def Expr.dumps : List Expr → List Dump
  | [] => []
  | e :: es => e.dump :: Expr.dumps es

end

def AssignOp.dump : AssignOp → Dump
  | set => .atom "Assign"
  | add => .atom "AddAssign"
  | subtract => .atom "SubtractAssign"
  | multiply => .atom "MultiplyAssign"
  | divide => .atom "DivideAssign"
  | modulo => .atom "ModuloAssign"

def Instruction.dump : Instruction → Dump
  | assign target op value span =>
    .record "Assignment" [("variable", .string target), ("operator", op.dump),
      ("value", value.dump), ("span", span.dump)]
  | bare value span => .record "Expression" [("value", value.dump), ("span", span.dump)]

/-! ## Code -/

def ParseError.dump (error : ParseError) : Dump :=
  .record "ParseError" [("message", .string error.message), ("span", error.span.dump),
    ("notes", .list (error.notes.map .string))]

def Code.dump {α : Type} {parse : String → Except ParseError α} (dumpParsed : α → Dump)
    (code : Code parse) : Dump :=
  let parsed := match code.parsed with
    | .ok a => .tuple "Ok" [dumpParsed a]
    | .error error => .tuple "Err" [error.dump]
  .record "Code" [("source", .string code.text), ("parsed", parsed)]

def StatementCode.dump (code : StatementCode) : Dump :=
  Code.dump (fun instructions => .list (instructions.map Instruction.dump)) code

def ConditionCode.dump (code : ConditionCode) : Dump :=
  .record "Condition" [("code", Code.dump Expr.dump code)]

/-! ## Blocks -/

def Init.dump (init : Init) : Dump :=
  .record "Init" [("counter", .string init.counter), ("value", .number init.value)]

/-- The header slots of a compound block. All three kinds are shown, whether or not the block has a
slot for them. -/
def dumpHeaders (init : Option Init) (condition : Option ConditionCode)
    (increment : Option Float) : Dump :=
  .record "Headers" [("init", .option Init.dump init),
    ("condition", .option ConditionCode.dump condition),
    ("increment", .option (fun step => .record "Increment" [("value", .number step)]) increment)]

def Action.dump : Action → Dump
  | statement code => .tuple "Statement" [StatementCode.dump code]
  | print => .atom "Print"
  | leave => .atom "Break"
  | addCounter name => .record "AddLoopVariable" [("name", .string name)]

/-- A block with the given tag, given what it does. -/
def Tag.dump (tag : Tag) (kind : Dump) : Dump :=
  .record "Block" [("id", .tuple "BlockId" [.natural tag.id.number]),
    ("locked", .boolean tag.locked), ("layer", .natural tag.layer.toNat), ("kind", kind)]

def dumpLoop (name : String) (headers : Dump) (body : List Dump) : Dump :=
  .tuple "Compound"
    [.tuple name [.record "Loop" [("headers", headers), ("children", .list body)]]]

def dumpSection (name : String) (blocks : List Dump) : Dump :=
  .record "Section" [("kind", .atom name), ("children", .list blocks)]

mutual

def Block.dump : Block → Dump
  | .action tag a => tag.dump a.dump
  | .forLoop tag headers body =>
    tag.dump (dumpLoop "ForLoop"
      (dumpHeaders headers.init headers.condition headers.increment) (Block.dumps body))
  | .whileLoop tag condition body =>
    tag.dump (dumpLoop "While" (dumpHeaders none condition none) (Block.dumps body))
  | .ifElse tag condition ifPart elsePart =>
    tag.dump (.tuple "Compound" [.tuple "IfElse" [.record "IfElse" [
      ("headers", dumpHeaders none condition none),
      ("if_section", dumpSection "If" (Block.dumps ifPart)),
      ("else_section", dumpSection "Else" (Block.dumps elsePart))]]])

def Block.dumps : List Block → List Dump
  | [] => []
  | b :: bs => b.dump :: Block.dumps bs

end

def Program.dump (p : Program) : Dump :=
  .record "Program" [("slots", .list (p.slots.map (.option Block.dump)))]

end BlockLang
