import BlockLang.Program.Basic

/-!
# Edits

Blocks are put into a program, taken out of it and changed. Every edit says how it went and leaves
a program, also one that is refused.
-/

namespace BlockLang

/-- Why an edit is refused. -/
inductive EditError where
  | notFound (block : BlockId)
  | notCompound (block : BlockId)
  | notAContainer (block : BlockId)
  | wrongContainer (block : BlockId) (container : Container)
  | headerRefused (block : BlockId) (header : Header) (refusal : Block.Refusal)
  | headerMissing (block : BlockId) (kind : HeaderKind)
  | alreadyPresent (block : BlockId)
  | outOfBounds (index size : Nat)
  | locked (block : BlockId)

def EditError.message : EditError → String
  | notFound block => "block " ++ block.text ++ " is not in this program"
  | notCompound block =>
    "block " ++ block.text ++ " is not a compound block and has no header slots"
  | notAContainer block => "block " ++ block.text ++ " cannot hold child blocks"
  | wrongContainer block container =>
    container.describe ++ " does not exist on block " ++ block.text
  | headerRefused block header refusal =>
    "cannot attach header to " ++ block.text ++ ": " ++ refusal.message header.kind
  | headerMissing block kind => "block " ++ block.text ++ " has no " ++ kind.name ++ " header"
  | alreadyPresent block => "block " ++ block.text ++ " is already part of this program"
  | outOfBounds index size =>
    "index " ++ Nat.repr index ++ " is out of bounds for a container of " ++ Nat.repr size ++
      " blocks"
  | locked block => "block " ++ block.text ++ " is locked"

/-- What keeps an edit from its end. -/
inductive EditFailure where
  | refused (error : EditError)
  /-- A list is shorter than the edit takes for granted. -/
  | overrun

/-- How an edit went, and the program after it. -/
abbrev Edit (α : Type) := Except EditFailure α × Program

namespace Program

/-- Refuses an edit and leaves the program as it is. -/
def refuse {α : Type} (p : Program) (error : EditError) : Edit α :=
  (.error (.refused error), p)

/-! ## Containers -/

/-- The place of the list that a part of the block with the id is. -/
def list? (p : Program) (id : BlockId) (part : Block.Part) :
    Except EditError (Place (List Block) Program) :=
  match p.place? id with
  | none => .error (.notFound id)
  | some place =>
    if place.content.compoundKind?.isNone then .error (.notAContainer id)
    else match place.content.part? part with
      | none => .error (.wrongContainer id (.part id part))
      | some blocks => .ok ⟨blocks, fun bs => place.put (place.content.setPart part bs)⟩

/-! ## Putting blocks in -/

/-- Puts a block before the block at `index`, or at the end. No block goes before a locked one that
is first in the program. -/
def insert (p : Program) (container : Container) (index : Nat) (b : Block) : Edit BlockId :=
  match b.family.find? fun inner => (p.find? inner.id).isSome with
  | some present => p.refuse (.alreadyPresent present.id)
  | none => match container with
    | .program =>
      if p.slots.length < index then p.refuse (.outOfBounds index p.slots.length)
      else match index, p.slots.head?.join.filter Block.locked with
        | 0, some first => p.refuse (.locked first.id)
        | _, _ => (.ok b.id, ⟨p.slots.insertIdx index (some b)⟩)
    | .part id part => match p.list? id part with
      | .error error => p.refuse error
      | .ok list =>
        if list.content.length < index then p.refuse (.outOfBounds index list.content.length)
        else (.ok b.id, list.put (list.content.insertIdx index b))

/-- Puts a block at the end of a container. -/
def push (p : Program) (container : Container) (b : Block) : Edit BlockId :=
  match container with
  | .program => p.insert .program p.slots.length b
  | .part id part => match p.list? id part with
    | .error error => p.refuse error
    | .ok list => p.insert (.part id part) list.content.length b

/-! ## Taking blocks out -/

/-- Takes out what is at the index of a container and closes the gap. -/
def removeAt (p : Program) (location : Location) (id : BlockId) : Edit Block :=
  match location.container with
  | .program => match p.slots[location.index]? with
    | none => (.error .overrun, p)
    -- The slot is gone before it is known whether there was a block in it.
    | some none => (.error (.refused (.notFound id)), ⟨p.slots.eraseIdx location.index⟩)
    | some (some b) => (.ok b, ⟨p.slots.eraseIdx location.index⟩)
  | .part holder part => match p.list? holder part with
    | .error error => p.refuse error
    | .ok list => match list.content[location.index]? with
      | none => (.error .overrun, p)
      | some b => (.ok b, list.put (list.content.eraseIdx location.index))

/-- Takes a block, with all blocks inside it, out of the container that holds it. -/
def removeChild (p : Program) (container : Container) (id : BlockId) : Edit Block :=
  match p.locate? id with
  | none => p.refuse (.notFound id)
  | some location =>
    if location.container ≠ container then p.refuse (.wrongContainer id container)
    else if (p.find? id).any Block.locked then p.refuse (.locked id)
    else p.removeAt location id

/-- Takes a block out of wherever it is. -/
def remove (p : Program) (id : BlockId) : Edit Block :=
  match p.locate? id with
  | none => p.refuse (.notFound id)
  | some location => p.removeChild location.container id

/-- Empties a slot and leaves a gap. -/
def clearSlot (p : Program) (index : Nat) : Edit (Option Block) :=
  match p.slots[index]? with
  | none => p.refuse (.outOfBounds index p.slots.length)
  | some slot => match slot.filter Block.locked with
    | some b => p.refuse (.locked b.id)
    | none => (.ok slot, ⟨p.slots.set index none⟩)

/-- Removes all gaps. -/
def compact (p : Program) : Program :=
  ⟨p.slots.filter Option.isSome⟩

/-! ## Changing blocks -/

/-- The place of the block with the id, which has to be a compound block. -/
def compound? (p : Program) (id : BlockId) : Except EditError (Place Block Program) :=
  match p.place? id with
  | none => .error (.notFound id)
  | some place =>
    if place.content.compoundKind?.isNone then .error (.notCompound id) else .ok place

def attach (p : Program) (id : BlockId) (header : Header) : Edit Unit :=
  match p.compound? id with
  | .error error => p.refuse error
  | .ok place => match place.content.attach header with
    | .error refusal => p.refuse (.headerRefused id header refusal)
    | .ok filled => (.ok (), place.put filled)

def detach (p : Program) (id : BlockId) (kind : HeaderKind) : Edit Header :=
  match p.compound? id with
  | .error error => p.refuse error
  | .ok place => match place.content.take kind with
    | (none, rest) => (.error (.refused (.headerMissing id kind)), place.put rest)
    | (some header, rest) => (.ok header, place.put rest)

/-- The blocks that a container holds, gaps left out. -/
def blocksIn (p : Program) : Container → Except EditError (List Block)
  | .program => .ok p.blocks
  | .part id part => (p.list? id part).map Place.content

/-- The layer above the given ones, as far as there is one. -/
def layerAbove (layers : List UInt32) (layer : UInt32) : UInt32 :=
  match layers.max? with
  | none => layer
  -- There is no layer above the greatest one, and blocks can share it.
  | some top => if top < layer then layer else if top + 1 = 0 then top else top + 1

/-- Raises a block above those beside it. -/
def moveToTop (p : Program) (id : BlockId) : Edit Unit :=
  match p.locate? id with
  | none => p.refuse (.notFound id)
  | some location => match p.blocksIn location.container with
    | .error error => p.refuse error
    | .ok blocks => match p.place? id with
      | none => p.refuse (.notFound id)
      | some ⟨b, put⟩ =>
        let beside := (blocks.filter (·.id ≠ id)).map Block.layer
        (.ok (), put (b.withTag { b.tag with layer := layerAbove beside b.layer }))

/-- Sets the lock and the layer of a block, as far as they are given. -/
def setTag (p : Program) (id : BlockId) (locked : Option Bool) (layer : Option UInt32) : Program :=
  match p.place? id with
  | none => p
  | some ⟨b, put⟩ =>
    put (b.withTag { b.tag with
      locked := locked.getD b.tag.locked, layer := layer.getD b.tag.layer })

end Program

end BlockLang
