import BlockLang.Expr.Statement

/-!
# Code

A text kept together with what it stands for. A text that cannot be read is still code: the error
is met when the code is used.
-/

namespace BlockLang

/-- A text with the result of parsing it. -/
structure Code {α : Type} (parse : String → Except ParseError α) where
  text : String
  parsed : Except ParseError α := parse text
  parsed_eq : parsed = parse text := by rfl

namespace Code

variable {α : Type} {parse : String → Except ParseError α}

def ofText (text : String) : Code parse where
  text := text

def isValid (code : Code parse) : Bool :=
  code.parsed.isOk

@[ext]
theorem ext {a b : Code parse} (h : a.text = b.text) : a = b := by
  obtain ⟨_, _, rfl⟩ := a
  obtain ⟨_, _, rfl⟩ := b
  subst h
  rfl

end Code

abbrev StatementCode := Code parseStatement

abbrev ConditionCode := Code parseCondition

end BlockLang
