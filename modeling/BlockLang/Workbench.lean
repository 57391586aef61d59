import BlockLang.Program.Edit
import BlockLang.Record.Basic

/-!
# Workbench

A program that is being put together, and the blocks in hand: those that were made or taken out of
the program and are not in it. Every step says how it went and leaves a workbench, which a refused
edit leaves as it was, except that a block that could not be put in is lost.
-/

namespace BlockLang

structure Workbench where
  program : Program := {}
  /-- The blocks in hand in the order of their identities. -/
  hand : List Block := []
  supply : Supply := {}

/-- Why a step cannot be done. -/
inductive Workbench.Failure where
  | notInHand
  | edit (error : EditError)
  /-- The program was not as an edit takes it to be. -/
  | overrun
  /-- A block in hand refused a header, which is handed back. -/
  | header (header : Header) (refusal : Block.Refusal)

namespace Workbench

/-- How a step went, and the workbench after it. -/
abbrev Step (α : Type) := Except Failure α × Workbench

/-- Whether a block with the identity was ever made. -/
def knows (w : Workbench) (id : BlockId) : Bool :=
  0 < id.number && id.number < w.supply.next

/-- Adds a block to those in hand. -/
def hold (w : Workbench) (b : Block) : Workbench :=
  let before (c : Block) := c.id.number < b.id.number
  { w with hand := w.hand.takeWhile before ++ b :: w.hand.dropWhile before }

def held? (w : Workbench) (id : BlockId) : Option Block :=
  w.hand.find? (·.id = id)

def drop (w : Workbench) (id : BlockId) : Workbench :=
  { w with hand := w.hand.filter (·.id ≠ id) }

/-- The workbench after an edit of its program. -/
def edited {α : Type} (w : Workbench) : Edit α → Step α
  | (.ok a, program) => (.ok a, { w with program })
  | (.error (.refused e), program) => (.error (.edit e), { w with program })
  | (.error .overrun, program) => (.error .overrun, { w with program })

/-- Holds the block that was taken out. -/
def holding (step : Step Block) : Step Block :=
  match step with
  | (.ok b, w) => (.ok b, w.hold b)
  | refused => refused

/-! ## Programs -/

/-- Starts a program over: an empty one, or one that sets its variable first. -/
def start (w : Workbench) (initial : Option Float) : Workbench :=
  match initial with
  | none => { w with program := {} }
  | some value =>
    let (tag, supply) := w.supply.tag
    { w with program := .new tag.id value, supply }

/-- Replaces the program by a loaded one. -/
def load (w : Workbench) (records : List BlockRecord) : Workbench :=
  let (program, supply) := Program.ofRecords records w.supply
  { w with program, supply }

/-! ## Blocks -/

/-- Makes a block and holds it. -/
def make (w : Workbench) (record : BlockRecord) : Option Block × Workbench :=
  match record.build w.supply with
  | (none, supply) => (none, { w with supply })
  | (some b, supply) => (some b, { w with supply }.hold b)

/-- Puts a block from the hand into the program. -/
def place (w : Workbench) (id : BlockId) (put : Program → Block → Edit BlockId) :
    Step BlockId :=
  match w.held? id with
  | none => (.error .notInHand, w)
  | some b => (w.drop id).edited (put w.program b)

def insert (w : Workbench) (container : Container) (index : Nat) (id : BlockId) : Step BlockId :=
  w.place id fun p b => p.insert container index b

def push (w : Workbench) (container : Container) (id : BlockId) : Step BlockId :=
  w.place id fun p b => p.push container b

def remove (w : Workbench) (id : BlockId) : Step Block :=
  holding (w.edited (w.program.remove id))

def removeChild (w : Workbench) (container : Container) (id : BlockId) : Step Block :=
  holding (w.edited (w.program.removeChild container id))

/-- Empties a slot. What was in it, if anything, comes into the hand. -/
def clearSlot (w : Workbench) (index : Nat) : Step (Option Block) :=
  match w.edited (w.program.clearSlot index) with
  | (.ok (some b), w) => (.ok (some b), w.hold b)
  | other => other

def compact (w : Workbench) : Workbench :=
  { w with program := w.program.compact }

def moveToTop (w : Workbench) (id : BlockId) : Step Unit :=
  w.edited (w.program.moveToTop id)

def setTag (w : Workbench) (id : BlockId) (locked : Option Bool) (layer : Option UInt32) :
    Workbench :=
  { w with program := w.program.setTag id locked layer }

/-! ## Headers -/

def attach (w : Workbench) (id : BlockId) (header : Header) : Step Unit :=
  w.edited (w.program.attach id header)

def detach (w : Workbench) (id : BlockId) (kind : HeaderKind) : Step Header :=
  w.edited (w.program.detach id kind)

/-- Puts a header into a slot of a block in hand; nothing comes of it if the block has no slots. -/
def attachHeld (w : Workbench) (id : BlockId) (header : Header) : Step (Option Unit) :=
  match w.held? id with
  | none => (.error .notInHand, w)
  | some b =>
    if b.compoundKind?.isNone then (.ok none, w)
    else match b.attach header with
      | .ok filled => (.ok (some ()), (w.drop id).hold filled)
      | .error refusal => (.error (.header header refusal), w)

/-- Takes a header out of a slot of a block in hand, if there is one in it. -/
def detachHeld (w : Workbench) (id : BlockId) (kind : HeaderKind) : Step (Option Header) :=
  match w.held? id with
  | none => (.error .notInHand, w)
  | some b =>
    let (header, rest) := b.take kind
    (.ok header, (w.drop id).hold rest)

end Workbench

end BlockLang
