/-!
# Spans of text

Positions in a text are counted in bytes of its UTF-8 form.
-/

namespace BlockLang

/-- The part of a text from byte `start` up to but not including byte `stop`. -/
structure Span where
  start : Nat
  stop : Nat
deriving Repr, DecidableEq

/-- The number of bytes that the characters take. -/
def width (text : List Char) : Nat :=
  text.foldr (·.utf8Size + ·) 0

/-- The empty span at the end of a text of `stop` bytes. -/
def Span.atEnd (stop : Nat) : Span := ⟨stop, stop⟩

end BlockLang
