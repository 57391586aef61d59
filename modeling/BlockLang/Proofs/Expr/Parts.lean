import BlockLang.Proofs.Expr.Accepted
import BlockLang.Proofs.Expr.Layout

/-!
# The parts of an expression

The expression that some lexemes derive is made of them part by part. Main statements: every name
and every call in it is some of the lexemes in a row, and the parentheses in a derivation come in
pairs.
-/

namespace BlockLang

open Lexeme

/-! ## Balanced texts -/

/-- Parentheses of which each opening one is followed by its closing one. -/
inductive Nested : List Char → Prop
  | nil : Nested []
  | pair {us vs} (inside : Nested us) (after : Nested vs) : Nested ('(' :: (us ++ ')' :: vs))

/-- Nested parentheses can stand side by side. -/
lemma Nested.append {us vs : List Char} (hu : Nested us) (hv : Nested vs) : Nested (us ++ vs) := by
  induction hu with
  | nil => exact hv
  | @pair us ws inside after _ ih => simpa using Nested.pair inside ih

/-- Every parenthesis in the text has its partner there. -/
def Balanced (text : List Char) : Prop :=
  Nested (text.filter isParen)

def Lexeme.parensOf (ts : List Lexeme) : List Char :=
  ts.flatMap fun t => parens t.token

@[simp]
lemma parensOf_nil : parensOf [] = [] :=
  rfl

@[simp]
lemma parensOf_cons (t : Lexeme) (ts : List Lexeme) :
    parensOf (t :: ts) = parens t.token ++ parensOf ts :=
  rfl

/-- The parentheses of lexemes in a row are those of each. -/
@[simp]
lemma parensOf_append (ts us : List Lexeme) : parensOf (ts ++ us) = parensOf ts ++ parensOf us :=
  List.flatMap_append

/-- There are no parentheses in a text outside its lexemes. -/
lemma Lexeme.Layout.filter_isParen {start : Nat} {text : List Char} {ts : List Lexeme}
    (h : Layout start text ts) : text.filter isParen = parensOf ts := by
  have hgap {gap : List Char} (blank : gap.all isBlank) : gap.filter isParen = [] := by
    rw [List.filter_eq_nil_iff]
    intro c hc hparen
    have hblank := List.all_eq_true.mp blank c hc
    rw [isParen, Bool.or_eq_true, beq_iff_eq, beq_iff_eq] at hparen
    rcases hparen with rfl | rfl <;> cases hblank
  induction h with
  | nil blank => exact hgap blank
  | cons blank spells others ih =>
    rw [List.filter_append, List.filter_append, hgap blank, spells.filter_isParen, ih]
    rfl

/-- The symbol of an operator is no parenthesis. -/
lemma BinaryOp.parens_symbol (op : BinaryOp) : parens (.symbol op.symbol) = [] := by
  cases op <;> rfl

lemma UnaryOp.parens_symbol (op : UnaryOp) : parens (.symbol op.symbol) = [] := by
  cases op <;> rfl

mutual

/-- The parentheses of lexemes that an expression is derived from are nested. -/
theorem Derivation.nested {n : Nonterminal} {ts : List Lexeme} :
    Derivation n ts → Nested (parensOf ts)
  | .condition inner | .operand inner | .primary inner => inner.nested
  | .choice test yes no split => by
    subst split
    have h := test.nested.append (yes.nested.append no.nested)
    simpa [parens] using h
  | .operation op _ left right split => by
    subst split
    have h := left.nested.append right.nested
    simpa [op.parens_symbol] using h
  | .unary op inner split => by
    subst split
    have h := inner.nested
    simpa [op.parens_symbol] using h
  | .number _ split | .boolean _ split | .name _ _ split => by
    subst split
    exact .nil
  | .parentheses inner split => by
    subst split
    have h := inner.nested.pair .nil
    simpa [parens] using h
  | .call _ _ _ _ _ arguments split => by
    subst split
    have h := arguments.nested.pair .nil
    simpa [parens] using h

/-- So are those of the lexemes of arguments. -/
theorem Arguments.nested {n : Nat} {ts : List Lexeme} : Arguments n ts → Nested (parensOf ts)
  | .none => .nil
  | .one argument => argument.nested
  | .more argument others split => by
    subst split
    have h := argument.nested.append others.nested
    simpa [parens] using h

end

/-! ## Parts -/

mutual

/-- The expression and all expressions in it, in the order of their texts. -/
def Expr.parts : Expr → List Expr
  | .number value => [.number value]
  | .boolean value => [.boolean value]
  | .name word span => [.name word span]
  | .call function arguments span => .call function arguments span :: Expr.partsOf arguments
  | .unary op operand => .unary op operand :: operand.parts
  | .binary op left right => .binary op left right :: (left.parts ++ right.parts)
  | .choice condition yes no =>
    .choice condition yes no :: (condition.parts ++ (yes.parts ++ no.parts))

def Expr.partsOf : List Expr → List Expr
  | [] => []
  | e :: es => e.parts ++ Expr.partsOf es

end

/-- The span that an expression carries itself, if it does. -/
def Expr.span? : Expr → Option Span
  | .name _ span | .call _ _ span => some span
  | _ => none

/-- The spans of all parts. -/
def Expr.spans (e : Expr) : List Span :=
  e.parts.filterMap span?

def Expr.spansOf (es : List Expr) : List Span :=
  (Expr.partsOf es).filterMap span?

/-- A part of an expression that was read from the lexemes is made of some of them. -/
def Expr.ReadFrom (ts : List Lexeme) : Expr → Prop
  | .name word span => [⟨.name word, span⟩] <:+: ts
  | .call function arguments span => ∃ word name opening closing us,
    Builtin.ofName? word = some function ∧ span = ⟨name.start, closing.stop⟩ ∧
    (∃ d : Arguments function.arity us, d.trees = arguments) ∧
    ⟨.name word, name⟩ :: ⟨.symbol .openParen, opening⟩ ::
      (us ++ [⟨.symbol .closeParen, closing⟩]) <:+: ts
  | _ => True

variable {ts us vs ws : List Lexeme} {e : Expr}

/-- What is made of some lexemes in a row is made of the lexemes around them. -/
lemma Expr.ReadFrom.of_isInfix (h : e.ReadFrom us) (hus : us <:+: ts) : e.ReadFrom ts := by
  cases e with
  | name => exact List.IsInfix.trans h hus
  | call =>
    obtain ⟨word, name, opening, closing, vs, hfound, hspan, hd, hvs⟩ := h
    exact ⟨word, name, opening, closing, vs, hfound, hspan, hd, hvs.trans hus⟩
  | _ => trivial

/-- What stands before a lexeme is a part of all. -/
lemma infix_left (us : List Lexeme) (t : Lexeme) (vs : List Lexeme) : us <:+: us ++ t :: vs :=
  (List.prefix_append us _).isInfix

/-- What stands behind a lexeme is a part of all. -/
lemma infix_right (us : List Lexeme) (t : Lexeme) (vs : List Lexeme) : vs <:+: us ++ t :: vs :=
  ((List.suffix_cons t vs).trans (List.suffix_append us _)).isInfix

/-- The lexemes of arguments are a part of those of their call. -/
lemma infix_call (us : List Lexeme) (name opening closing : Lexeme) :
    us <:+: name :: opening :: (us ++ [closing]) :=
  (infix_left us closing []).trans (infix_right [name] opening _)

mutual

/-- Every part of a derived expression is made of some of its lexemes in a row. -/
theorem Derivation.readFrom {n : Nonterminal} {ts : List Lexeme} :
    ∀ d : Derivation n ts, ∀ part ∈ d.tree.parts, part.ReadFrom ts
  | .condition inner | .operand inner | .primary inner => inner.readFrom
  | .choice test yes no split => by
    subst split
    rw [Derivation.tree, Expr.parts, List.forall_mem_cons, List.forall_mem_append,
      List.forall_mem_append]
    refine ⟨trivial, fun part h => ?_, fun part h => ?_, fun part h => ?_⟩
    · exact (test.readFrom part h).of_isInfix (infix_left _ _ _)
    · exact (yes.readFrom part h).of_isInfix ((infix_left _ _ _).trans (infix_right _ _ _))
    · exact (no.readFrom part h).of_isInfix ((infix_right _ _ _).trans (infix_right _ _ _))
  | .operation op _ left right split => by
    subst split
    rw [Derivation.tree, Expr.parts, List.forall_mem_cons, List.forall_mem_append]
    refine ⟨trivial, fun part h => ?_, fun part h => ?_⟩
    · exact (left.readFrom part h).of_isInfix (infix_left _ _ _)
    · exact (right.readFrom part h).of_isInfix (infix_right _ _ _)
  | .unary op inner split => by
    subst split
    rw [Derivation.tree, Expr.parts, List.forall_mem_cons]
    exact ⟨trivial, fun part h => (inner.readFrom part h).of_isInfix (infix_right [] _ _)⟩
  | .number _ split | .boolean _ split => by
    rw [Derivation.tree, Expr.parts, List.forall_mem_singleton]
    trivial
  | .name word span split => by
    subst split
    rw [Derivation.tree, Expr.parts, List.forall_mem_singleton]
    exact List.infix_rfl
  | .parentheses inner split => by
    subst split
    intro part h
    exact (inner.readFrom part h).of_isInfix ((infix_left _ _ _).trans (infix_right [] _ _))
  | .call word function span closing found arguments split => by
    subst split
    rw [Derivation.tree, Expr.parts, List.forall_mem_cons]
    refine ⟨⟨word, span, _, closing, _, found, rfl, ⟨arguments, rfl⟩, List.infix_rfl⟩, ?_⟩
    intro part h
    exact (arguments.readFrom part h).of_isInfix (infix_call _ _ _ _)

/-- Every part of derived arguments is made of some of their lexemes in a row. -/
theorem Arguments.readFrom {n : Nat} {ts : List Lexeme} :
    ∀ d : Arguments n ts, ∀ part ∈ Expr.partsOf d.trees, part.ReadFrom ts
  | .none => by simp [Arguments.trees, Expr.partsOf]
  | .one argument => by
    rw [Arguments.trees, Expr.partsOf, Expr.partsOf, List.append_nil]
    exact argument.readFrom
  | .more argument others split => by
    subst split
    rw [Arguments.trees, Expr.partsOf, List.forall_mem_append]
    refine ⟨fun part h => ?_, fun part h => ?_⟩
    · exact (argument.readFrom part h).of_isInfix (infix_left _ _ _)
    · exact (others.readFrom part h).of_isInfix (infix_right _ _ _)

end

end BlockLang
