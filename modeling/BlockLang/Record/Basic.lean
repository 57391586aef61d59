import BlockLang.Program.Basic

/-!
# Records

A record is the plain form of a block that is saved and loaded: what the block does and what is
inside it, without its identity and its layer. A loaded program has new identities throughout.
-/

namespace BlockLang

/-- The plain form of a block, or of an empty slot. What is left out has its default. -/
inductive BlockRecord where
  | statement (text : String) (locked : Bool)
  | print
  | leave
  | addCounter (name : Option String)
  | forLoop (counter : Option String) (init : Option Float) (condition : Option String)
      (increment : Option Float) (body : List BlockRecord)
  | whileLoop (condition : Option String) (body : List BlockRecord)
  | ifElse (condition : Option String) (ifPart elsePart : List BlockRecord)
  | empty

mutual

/-- Whether two records say the same. Their numbers are compared as numbers, so a record with NaN
in it differs from itself. -/
def BlockRecord.same : BlockRecord → BlockRecord → Bool
  | .statement text locked, .statement text' locked' => text == text' && locked == locked'
  | .print, .print => true
  | .leave, .leave => true
  | .addCounter name, .addCounter name' => name == name'
  | .forLoop counter init condition increment body,
      .forLoop counter' init' condition' increment' body' =>
    counter == counter' && init == init' && condition == condition' && increment == increment' &&
      BlockRecord.sameList body body'
  | .whileLoop condition body, .whileLoop condition' body' =>
    condition == condition' && BlockRecord.sameList body body'
  | .ifElse condition ifPart elsePart, .ifElse condition' ifPart' elsePart' =>
    condition == condition' && BlockRecord.sameList ifPart ifPart' &&
      BlockRecord.sameList elsePart elsePart'
  | .empty, .empty => true
  | _, _ => false

def BlockRecord.sameList : List BlockRecord → List BlockRecord → Bool
  | [], [] => true
  | r :: rs, r' :: rs' => r.same r' && BlockRecord.sameList rs rs'
  | _, _ => false

end

/-- What the kinds of record are called in saved programs. -/
def BlockRecord.kind : BlockRecord → String
  | statement .. => "statement"
  | print => "print"
  | leave => "break"
  | addCounter _ => "add_loop_variable"
  | forLoop .. => "for"
  | whileLoop .. => "while"
  | ifElse .. => "if_else"
  | empty => "empty"

/-! ## Saving -/

/-- A name, unless it is the default one. -/
def unlessDefault (name : String) : Option String :=
  if name = defaultCounter then none else some name

mutual

/-- The plain form of a block. -/
def Block.record : Block → BlockRecord
  | .action tag (.statement code) => .statement code.text tag.locked
  | .action _ .print => .print
  | .action _ .leave => .leave
  | .action _ (.addCounter name) => .addCounter (unlessDefault name)
  | .forLoop _ headers body =>
    .forLoop (headers.init.bind fun i => unlessDefault i.counter) (headers.init.map Init.value)
      (headers.condition.map Code.text) headers.increment (Block.records body)
  | .whileLoop _ condition body => .whileLoop (condition.map Code.text) (Block.records body)
  | .ifElse _ condition ifPart elsePart =>
    .ifElse (condition.map Code.text) (Block.records ifPart) (Block.records elsePart)

def Block.records : List Block → List BlockRecord
  | [] => []
  | b :: bs => b.record :: Block.records bs

end

/-- The plain form of a program. -/
def Program.records (p : Program) : List BlockRecord :=
  p.slots.map fun slot => slot.elim .empty Block.record

/-! ## Loading -/

/-- The next identity for a block and all after it are free. -/
structure Supply where
  next : Nat := 1
deriving Repr, DecidableEq

/-- A tag with an identity that was free. -/
def Supply.tag (supply : Supply) : Tag × Supply :=
  ({ id := ⟨supply.next⟩ }, ⟨supply.next + 1⟩)

namespace BlockRecord

mutual

/-- The block that a record stands for. The blocks inside it take their identities first. -/
def build : BlockRecord → Supply → Option Block × Supply
  | statement text locked, supply =>
    let (tag, supply) := supply.tag
    (some (.action { tag with locked } (.statement (.ofText text))), supply)
  | print, supply =>
    let (tag, supply) := supply.tag
    (some (.action tag .print), supply)
  | leave, supply =>
    let (tag, supply) := supply.tag
    (some (.action tag .leave), supply)
  | addCounter name, supply =>
    let (tag, supply) := supply.tag
    (some (.action tag (.addCounter (name.getD defaultCounter))), supply)
  | forLoop counter init condition increment body, supply =>
    let (body, supply) := buildList body supply
    let (tag, supply) := supply.tag
    let headers : ForHeaders := {
      init := init.map fun value => ⟨counter.getD defaultCounter, value⟩
      condition := condition.map .ofText
      increment }
    (some (.forLoop tag headers body), supply)
  | whileLoop condition body, supply =>
    let (body, supply) := buildList body supply
    let (tag, supply) := supply.tag
    (some (.whileLoop tag (condition.map .ofText) body), supply)
  | ifElse condition ifPart elsePart, supply =>
    let (ifPart, supply) := buildList ifPart supply
    let (elsePart, supply) := buildList elsePart supply
    let (tag, supply) := supply.tag
    (some (.ifElse tag (condition.map .ofText) ifPart elsePart), supply)
  | empty, supply => (none, supply)

/-- The blocks that records inside a block stand for. There are no empty slots inside a block. -/
def buildList : List BlockRecord → Supply → List Block × Supply
  | [], supply => ([], supply)
  | r :: rs, supply =>
    let (b, supply) := r.build supply
    let (bs, supply) := buildList rs supply
    (b.toList ++ bs, supply)

end

/-- The slots that records stand for. -/
def buildSlots : List BlockRecord → Supply → List (Option Block) × Supply
  | [], supply => ([], supply)
  | r :: rs, supply =>
    let (b, supply) := r.build supply
    let (bs, supply) := buildSlots rs supply
    (b :: bs, supply)

end BlockRecord

/-- The program that records stand for. -/
def Program.ofRecords (records : List BlockRecord) (supply : Supply) : Program × Supply :=
  let (slots, supply) := BlockRecord.buildSlots records supply
  (⟨slots⟩, supply)

end BlockLang
