import BlockLang.Code

/-!
# Blocks

A program is built from blocks. Some act on the program variable, and compound blocks hold lists
of blocks. A compound block also has header slots, which are filled one by one while a program is
being put together: a for loop has three, a while loop and an if/else have one.
-/

namespace BlockLang

/-- Names a block of one program. -/
structure BlockId where
  number : Nat
deriving Repr, DecidableEq

def BlockId.text (id : BlockId) : String :=
  "#" ++ Nat.repr id.number

/-! ## Headers -/

inductive HeaderKind where
  | init
  | condition
  | increment
deriving Repr, DecidableEq

def HeaderKind.name : HeaderKind → String
  | init => "init"
  | condition => "condition"
  | increment => "increment"

/-- The counter of a for loop and the value it starts from. -/
structure Init where
  counter : String
  value : Float

/-- The name of a counter for which no other name is given. -/
def defaultCounter : String := "i"

/-- A header that can be put into a slot of a compound block. -/
inductive Header where
  | init (init : Init)
  | condition (code : ConditionCode)
  | increment (step : Float)

def Header.kind : Header → HeaderKind
  | init _ => .init
  | condition _ => .condition
  | increment _ => .increment

/-- The header slots of a for loop. -/
structure ForHeaders where
  init : Option Init := none
  condition : Option ConditionCode := none
  increment : Option Float := none

/-! ## Blocks -/

/-- What every block carries, whatever it does. A locked block stays in its program. The layer is
the order in which overlapping blocks are drawn and means nothing to a run. -/
structure Tag where
  id : BlockId
  locked : Bool := false
  layer : UInt32 := 0
deriving DecidableEq

/-- What a block without other blocks in it does. -/
inductive Action where
  | statement (code : StatementCode)
  /-- Writes the program variable to the output. -/
  | print
  /-- Ends the innermost loop around the block. -/
  | leave
  /-- Adds the named loop counter to the program variable. -/
  | addCounter (name : String)

inductive Block where
  | action (tag : Tag) (action : Action)
  | forLoop (tag : Tag) (headers : ForHeaders) (body : List Block)
  | whileLoop (tag : Tag) (condition : Option ConditionCode) (body : List Block)
  | ifElse (tag : Tag) (condition : Option ConditionCode) (ifPart elsePart : List Block)

inductive CompoundKind where
  | forLoop
  | whileLoop
  | ifElse
deriving Repr, DecidableEq

namespace CompoundKind

def name : CompoundKind → String
  | forLoop => "for loop"
  | whileLoop => "while loop"
  | ifElse => "if/else"

/-- The kinds of header that the block has slots for. A run needs all of them filled. -/
def permitted : CompoundKind → List HeaderKind
  | forLoop => [.init, .condition, .increment]
  | whileLoop | ifElse => [.condition]

end CompoundKind

namespace Block

def tag : Block → Tag
  | action tag _ | forLoop tag .. | whileLoop tag .. | ifElse tag .. => tag

def id (b : Block) : BlockId := b.tag.id

def locked (b : Block) : Bool := b.tag.locked

def layer (b : Block) : UInt32 := b.tag.layer

def withTag (new : Tag) : Block → Block
  | action _ a => action new a
  | forLoop _ headers body => forLoop new headers body
  | whileLoop _ condition body => whileLoop new condition body
  | ifElse _ condition ifPart elsePart => ifElse new condition ifPart elsePart

def compoundKind? : Block → Option CompoundKind
  | action .. => none
  | forLoop .. => some .forLoop
  | whileLoop .. => some .whileLoop
  | ifElse .. => some .ifElse

/-! ### Header slots -/

def permits (b : Block) (kind : HeaderKind) : Bool :=
  b.compoundKind?.any (·.permitted.contains kind)

/-- The condition of a compound block, if there is one. -/
def condition? : Block → Option ConditionCode
  | action .. => none
  | forLoop _ headers _ => headers.condition
  | whileLoop _ condition _ | ifElse _ condition .. => condition

/-- The header in the slot of the given kind. -/
def header? (b : Block) (kind : HeaderKind) : Option Header :=
  match kind, b with
  | .init, forLoop _ headers _ => headers.init.map .init
  | .increment, forLoop _ headers _ => headers.increment.map .increment
  | .condition, b => b.condition?.map .condition
  | _, _ => none

/-- The slots that still have to be filled. -/
def missing (b : Block) : List HeaderKind :=
  (b.compoundKind?.elim [] CompoundKind.permitted).filter fun kind => (b.header? kind).isNone

/-- The block with its slot for the header filled, whatever was in it. -/
def setHeader (header : Header) : Block → Block
  | action tag a => action tag a
  | forLoop tag headers body => match header with
    | .init i => forLoop tag { headers with init := some i } body
    | .condition c => forLoop tag { headers with condition := some c } body
    | .increment step => forLoop tag { headers with increment := some step } body
  | whileLoop tag condition body => match header with
    | .condition c => whileLoop tag (some c) body
    | _ => whileLoop tag condition body
  | ifElse tag condition ifPart elsePart => match header with
    | .condition c => ifElse tag (some c) ifPart elsePart
    | _ => ifElse tag condition ifPart elsePart

/-- The block with the slot empty. -/
def clearHeader (kind : HeaderKind) : Block → Block
  | action tag a => action tag a
  | forLoop tag headers body => match kind with
    | .init => forLoop tag { headers with init := none } body
    | .condition => forLoop tag { headers with condition := none } body
    | .increment => forLoop tag { headers with increment := none } body
  | whileLoop tag condition body =>
    whileLoop tag (if kind = .condition then none else condition) body
  | ifElse tag condition ifPart elsePart =>
    ifElse tag (if kind = .condition then none else condition) ifPart elsePart

/-- Why a header was refused. -/
inductive Refusal where
  /-- The block has no slot for it. -/
  | notPermitted
  /-- The slot is taken. -/
  | duplicate
deriving Repr, DecidableEq

def Refusal.message (refusal : Refusal) (kind : HeaderKind) : String :=
  match refusal with
  | notPermitted => kind.name ++ " header is not accepted here"
  | duplicate => "a " ++ kind.name ++ " header is already attached"

/-- Puts a header into its slot, which has to be there and empty. -/
def attach (header : Header) (b : Block) : Except Refusal Block :=
  if !b.permits header.kind then .error .notPermitted
  else if (b.header? header.kind).isSome then .error .duplicate
  else .ok (b.setHeader header)

/-- Takes the header out of a slot, if there is one in it. -/
def take (kind : HeaderKind) (b : Block) : Option Header × Block :=
  (b.header? kind, b.clearHeader kind)

/-! ### Lists of blocks inside a block -/

/-- The lists that a compound block can hold. -/
inductive Part where
  | body
  | ifPart
  | elsePart
deriving Repr, DecidableEq

/-- The lists that the block holds, in order. -/
def parts : Block → List (Part × List Block)
  | action .. => []
  | forLoop _ _ body | whileLoop _ _ body => [(.body, body)]
  | ifElse _ _ ifPart elsePart => [(.ifPart, ifPart), (.elsePart, elsePart)]

def part? (b : Block) (part : Part) : Option (List Block) :=
  b.parts.lookup part

/-- Replaces one of the lists that the block holds. -/
def setPart (part : Part) (blocks : List Block) : Block → Block
  | action tag a => action tag a
  | forLoop tag headers body =>
    forLoop tag headers (if part = .body then blocks else body)
  | whileLoop tag condition body =>
    whileLoop tag condition (if part = .body then blocks else body)
  | ifElse tag condition ifPart elsePart =>
    ifElse tag condition (if part = .ifPart then blocks else ifPart)
      (if part = .elsePart then blocks else elsePart)

end Block

end BlockLang
