import BlockLang.Block.Label

/-!
# Programs

A program is a row of slots, each with a block in it or empty. Every block of it has a place: a
list that holds it and an index in that list. Blocks are gone over, found, located and changed by
one recursion each.
-/

namespace BlockLang

/-- A program runs the blocks in its slots from first to last. An empty slot is a gap. -/
structure Program where
  slots : List (Option Block) := []

/-- A list that holds blocks: the slots of the program, or a part of a compound block. -/
inductive Container where
  | program
  | part (block : BlockId) (part : Block.Part)
deriving Repr, DecidableEq

def Container.describe : Container → String
  | program => "program"
  | part block .body => "body of " ++ block.text
  | part block .ifPart => "if section of " ++ block.text
  | part block .elsePart => "else section of " ++ block.text

/-- Where a block is. -/
structure Location where
  container : Container
  index : Nat
deriving Repr, DecidableEq

/-- A place in a whole: what is there, and the whole with something else put there. -/
structure Place (α β : Type) where
  content : α
  put : α → β

namespace Place

variable {α β γ : Type}

/-- All of a thing as a place in it. -/
def all (a : α) : Place α α := ⟨a, id⟩

/-- The place in something larger. -/
def within (place : Place α β) (wrap : β → γ) : Place α γ :=
  ⟨place.content, fun a => wrap (place.put a)⟩

end Place

/-! ## Going over blocks -/

mutual

/-- A block and all blocks inside it, each before those inside it. -/
def Block.family : Block → List Block
  | .action tag a => [.action tag a]
  | .forLoop tag headers body => .forLoop tag headers body :: Block.families body
  | .whileLoop tag condition body => .whileLoop tag condition body :: Block.families body
  | .ifElse tag condition ifPart elsePart =>
    .ifElse tag condition ifPart elsePart :: (Block.families ifPart ++ Block.families elsePart)

/-- All blocks of a list and inside it. -/
def Block.families : List Block → List Block
  | [] => []
  | b :: bs => b.family ++ Block.families bs

end

/-! ## Finding a block -/

mutual

/-- The block with the id: the block itself or the first inside it. -/
def Block.find? (id : BlockId) : Block → Option Block
  | .action tag a => if tag.id = id then some (.action tag a) else none
  | .forLoop tag headers body =>
    if tag.id = id then some (.forLoop tag headers body) else Block.findIn? id body
  | .whileLoop tag condition body =>
    if tag.id = id then some (.whileLoop tag condition body) else Block.findIn? id body
  | .ifElse tag condition ifPart elsePart =>
    if tag.id = id then some (.ifElse tag condition ifPart elsePart)
    else (Block.findIn? id ifPart).or (Block.findIn? id elsePart)

/-- The first block with the id in a list or inside it. -/
def Block.findIn? (id : BlockId) : List Block → Option Block
  | [] => none
  | b :: bs => (b.find? id).or (Block.findIn? id bs)

end

/-! ## Locating a block -/

mutual

/-- Where the first block with the id inside the block is. -/
def Block.locate? (id : BlockId) : Block → Option Location
  | .action .. => none
  | .forLoop tag _ body | .whileLoop tag _ body => Block.locateIn? id (.part tag.id .body) 0 body
  | .ifElse tag _ ifPart elsePart =>
    (Block.locateIn? id (.part tag.id .ifPart) 0 ifPart).or
      (Block.locateIn? id (.part tag.id .elsePart) 0 elsePart)

/-- Where the first block with the id in a list or inside it is, when the list begins at `index` of
the container. -/
def Block.locateIn? (id : BlockId) (container : Container) (index : Nat) :
    List Block → Option Location
  | [] => none
  | b :: bs =>
    if b.id = id then some ⟨container, index⟩
    else (b.locate? id).or (Block.locateIn? id container (index + 1) bs)

end

/-! ## Changing a block -/

mutual

/-- The place of the block with the id in a block: all of the block, or the first place inside. -/
def Block.place? (id : BlockId) : Block → Option (Place Block Block)
  | .action tag a => if tag.id = id then some (.all (.action tag a)) else none
  | .forLoop tag headers body =>
    if tag.id = id then some (.all (.forLoop tag headers body))
    else (Block.placeIn? id body).map (·.within (.forLoop tag headers))
  | .whileLoop tag condition body =>
    if tag.id = id then some (.all (.whileLoop tag condition body))
    else (Block.placeIn? id body).map (·.within (.whileLoop tag condition))
  | .ifElse tag condition ifPart elsePart =>
    if tag.id = id then some (.all (.ifElse tag condition ifPart elsePart))
    else ((Block.placeIn? id ifPart).map (·.within (.ifElse tag condition · elsePart))).or
      ((Block.placeIn? id elsePart).map (·.within (.ifElse tag condition ifPart)))

/-- The first place of a block with the id in a list or inside it. -/
def Block.placeIn? (id : BlockId) : List Block → Option (Place Block (List Block))
  | [] => none
  | b :: bs =>
    ((b.place? id).map (·.within (· :: bs))).or
      ((Block.placeIn? id bs).map (·.within (b :: ·)))

end

namespace Program

/-- A program that sets its variable first. -/
def new (id : BlockId) (initial : Float) : Program :=
  ⟨[some (.initializer id initial)]⟩

/-- The blocks in the slots. -/
def blocks (p : Program) : List Block :=
  p.slots.filterMap fun slot => slot

/-- All blocks of the program, each before those inside it. -/
def family (p : Program) : List Block :=
  Block.families p.blocks

def size (p : Program) : Nat := p.slots.length

def isEmpty (p : Program) : Bool := p.slots.isEmpty

def blockCount (p : Program) : Nat := p.family.length

def find? (p : Program) (id : BlockId) : Option Block :=
  Block.findIn? id p.blocks

/-- Where the first block with the id is, when the slots begin at `index` of the program. -/
def locateFrom? (id : BlockId) (index : Nat) : List (Option Block) → Option Location
  | [] => none
  | none :: slots => locateFrom? id (index + 1) slots
  | some b :: slots =>
    if b.id = id then some ⟨.program, index⟩
    else (b.locate? id).or (locateFrom? id (index + 1) slots)

def locate? (p : Program) (id : BlockId) : Option Location :=
  locateFrom? id 0 p.slots

/-- The first place of a block with the id in slots. -/
def placeInSlots? (id : BlockId) :
    List (Option Block) → Option (Place Block (List (Option Block)))
  | [] => none
  | none :: slots => (placeInSlots? id slots).map (·.within (none :: ·))
  | some b :: slots =>
    ((b.place? id).map (·.within (some · :: slots))).or
      ((placeInSlots? id slots).map (·.within (some b :: ·)))

/-- The place of the block with the id. -/
def place? (p : Program) (id : BlockId) : Option (Place Block Program) :=
  (placeInSlots? id p.slots).map (·.within mk)

end Program

end BlockLang
