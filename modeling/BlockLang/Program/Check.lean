import BlockLang.Program.Basic

/-!
# Checking texts

The texts of a program that cannot be read, found without running it.
-/

namespace BlockLang

/-- A text in a block that cannot be read, and why. -/
structure UnreadableText where
  block : BlockId
  text : String
  error : ParseError

def Code.unreadable? {α : Type} {parse : String → Except ParseError α} (block : BlockId)
    (code : Code parse) : Option UnreadableText :=
  match code.parsed with
  | .ok _ => none
  | .error error => some ⟨block, code.text, error⟩

/-- The text that a block itself has, if it cannot be read: that of a statement or of a
condition. -/
def Block.unreadable? : Block → Option UnreadableText
  | .action tag (.statement code) => code.unreadable? tag.id
  | b => b.condition?.bind (Code.unreadable? b.id)

/-- All texts of a program that cannot be read. -/
def Program.unreadable (p : Program) : List UnreadableText :=
  p.family.filterMap Block.unreadable?

end BlockLang
