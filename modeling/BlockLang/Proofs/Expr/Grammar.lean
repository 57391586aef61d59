import BlockLang.Expr.Statement
import Mathlib.Data.List.Chain
import Mathlib.Tactic.Lemma

/-!
# The grammar of expressions

Between the choice `? :` and the operands there are six layers of binary operators, each of which
groups to the left. A derivation from a nonterminal is a value, so that two derivations of the same
lexemes can be compared; `Derivation.tree` is the expression it stands for.
-/

namespace BlockLang

/-- The layers of binary operators, the loosest first. -/
inductive Layer where
  | or | and | equality | comparison | sum | product

inductive Nonterminal where
  | condition
  | layer (layer : Layer)
  | unary
  | primary

/-- What stands on the right of the operators of a layer: the next tighter nonterminal. -/
def Layer.operand : Layer → Nonterminal
  | or => .layer .and
  | and => .layer .equality
  | equality => .layer .comparison
  | comparison => .layer .sum
  | sum => .layer .product
  | product => .unary

def BinaryOp.layer : BinaryOp → Layer
  | or => .or
  | and => .and
  | equal | notEqual => .equality
  | greater | less | greaterOrEqual | lessOrEqual => .comparison
  | add | subtract => .sum
  | multiply | divide | modulo => .product

def BinaryOp.symbol : BinaryOp → Symbol
  | or => .or
  | and => .and
  | equal => .equal
  | notEqual => .notEqual
  | greater => .greater
  | less => .less
  | greaterOrEqual => .greaterEqual
  | lessOrEqual => .lessEqual
  | add => .plus
  | subtract => .minus
  | multiply => .star
  | divide => .slash
  | modulo => .percent

def UnaryOp.symbol : UnaryOp → Symbol
  | negate => .minus
  | not => .not

mutual

/-- The ways to derive some lexemes from a nonterminal, one constructor for each production. That a
name is not followed by an opening parenthesis does not have to be asked for, see
`Derivation.isSome_of_call`. -/
inductive Derivation : Nonterminal → List Lexeme → Type
  | condition {ts} (inner : Derivation (.layer .or) ts) : Derivation .condition ts
  | choice {ts us vs ws question colon} (test : Derivation (.layer .or) us)
      (yes : Derivation .condition vs) (no : Derivation .condition ws)
      (split : ts = us ++ ⟨.symbol .question, question⟩ :: (vs ++ ⟨.symbol .colon, colon⟩ :: ws)) :
      Derivation .condition ts
  | operand {ts l} (inner : Derivation (Layer.operand l) ts) : Derivation (.layer l) ts
  | operation {ts us vs l span} (op : BinaryOp) (member : op.layer = l)
      (left : Derivation (.layer l) us) (right : Derivation (Layer.operand l) vs)
      (split : ts = us ++ ⟨.symbol op.symbol, span⟩ :: vs) : Derivation (.layer l) ts
  | primary {ts} (inner : Derivation .primary ts) : Derivation .unary ts
  | unary {ts us span} (op : UnaryOp) (inner : Derivation .unary us)
      (split : ts = ⟨.symbol op.symbol, span⟩ :: us) : Derivation .unary ts
  | number {ts span} (value : Float) (split : ts = [⟨.number value, span⟩]) :
      Derivation .primary ts
  | boolean {ts span} (value : Bool) (split : ts = [⟨.truth value, span⟩]) : Derivation .primary ts
  | name {ts} (word : String) (span : Span) (split : ts = [⟨.name word, span⟩]) :
      Derivation .primary ts
  | parentheses {ts us opening closing} (inner : Derivation .condition us)
      (split : ts = ⟨.symbol .openParen, opening⟩ :: (us ++ [⟨.symbol .closeParen, closing⟩])) :
      Derivation .primary ts
  | call {ts us opening} (word : String) (function : Builtin) (span closing : Span)
      (found : Builtin.ofName? word = some function) (arguments : Arguments function.arity us)
      (split : ts = ⟨.name word, span⟩ :: ⟨.symbol .openParen, opening⟩ ::
        (us ++ [⟨.symbol .closeParen, closing⟩])) :
      Derivation .primary ts

/-- The ways to derive a number of conditions with commas between them. -/
inductive Arguments : Nat → List Lexeme → Type
  | none : Arguments 0 []
  | one {ts} (argument : Derivation .condition ts) : Arguments 1 ts
  | more {ts us vs n comma} (argument : Derivation .condition us) (others : Arguments (n + 1) vs)
      (split : ts = us ++ ⟨.symbol .comma, comma⟩ :: vs) : Arguments (n + 2) ts

end

mutual

/-- The expression that a derivation stands for. -/
def Derivation.tree {n : Nonterminal} {ts : List Lexeme} : Derivation n ts → Expr
  | .condition inner | .operand inner | .primary inner | .parentheses inner _ => inner.tree
  | .choice test yes no _ => .choice test.tree yes.tree no.tree
  | .operation op _ left right _ => .binary op left.tree right.tree
  | .unary op inner _ => .unary op inner.tree
  | .number value _ => .number value
  | .boolean value _ => .boolean value
  | .name word span _ => .name word span
  | .call _ function span closing _ arguments _ =>
    .call function arguments.trees ⟨span.start, closing.stop⟩

def Arguments.trees {n : Nat} {ts : List Lexeme} : Arguments n ts → List Expr
  | .none => []
  | .one argument => [argument.tree]
  | .more argument others _ => argument.tree :: others.trees

end

/-- Every run of lexemes that derives from a nonterminal has a first lexeme. -/
lemma Derivation.ne_nil {n : Nonterminal} {ts : List Lexeme} : Derivation n ts → ts ≠ []
  | .condition inner | .operand inner | .primary inner => inner.ne_nil
  | .choice _ _ _ split | .operation _ _ _ _ split => by simp [split]
  | .unary _ _ split | .number _ split | .boolean _ split | .name _ _ split
  | .parentheses _ split | .call _ _ _ _ _ _ split => by simp [split]

/-! ## Lexemes that no derivation holds -/

/-- Tokens that stand in statements around expressions, and not in these. -/
def Token.statementOnly : Token → Bool
  | .symbol s => s.assignHead?.isSome || s = .semicolon
  | _ => false

@[simp]
lemma UnaryOp.statementOnly_symbol (op : UnaryOp) :
    (Token.symbol op.symbol).statementOnly = false := by
  cases op <;> rfl

@[simp]
lemma BinaryOp.statementOnly_symbol (op : BinaryOp) :
    (Token.symbol op.symbol).statementOnly = false := by
  cases op <;> rfl

mutual

/-- No token of an expression is one that only statements have. -/
lemma Derivation.not_statementOnly {n : Nonterminal} {ts : List Lexeme} :
    Derivation n ts → ∀ t ∈ ts, t.token.statementOnly = false
  | .condition inner | .operand inner | .primary inner => inner.not_statementOnly
  | .choice test yes no split => by
    subst split
    simp only [List.forall_mem_append, List.forall_mem_cons]
    exact ⟨test.not_statementOnly, rfl, yes.not_statementOnly, rfl, no.not_statementOnly⟩
  | .operation op _ left right split => by
    subst split
    simp only [List.forall_mem_append, List.forall_mem_cons]
    exact ⟨left.not_statementOnly, op.statementOnly_symbol, right.not_statementOnly⟩
  | .unary op inner split => by
    subst split
    simp only [List.forall_mem_cons]
    exact ⟨op.statementOnly_symbol, inner.not_statementOnly⟩
  | .number _ split | .boolean _ split | .name _ _ split => by
    simp [split, Token.statementOnly]
  | .parentheses inner split => by
    subst split
    simp only [List.forall_mem_append, List.forall_mem_cons]
    exact ⟨rfl, inner.not_statementOnly, rfl, by simp⟩
  | .call _ _ _ _ _ arguments split => by
    subst split
    simp only [List.forall_mem_append, List.forall_mem_cons]
    exact ⟨rfl, rfl, arguments.not_statementOnly, rfl, by simp⟩

lemma Arguments.not_statementOnly {n : Nat} {ts : List Lexeme} :
    Arguments n ts → ∀ t ∈ ts, t.token.statementOnly = false
  | .none => by simp
  | .one argument => argument.not_statementOnly
  | .more argument others split => by
    subst split
    simp only [List.forall_mem_append, List.forall_mem_cons]
    exact ⟨argument.not_statementOnly, rfl, others.not_statementOnly⟩

end

/-- The next lexeme can follow this one: a name before an opening parenthesis is that of a
function. -/
def Lexeme.Precedes (lexeme next : Lexeme) : Prop :=
  ∀ word, lexeme.token = .name word → next.token = .symbol .openParen →
    (Builtin.ofName? word).isSome

/-- Anything but an opening parenthesis can stand behind a lexeme. -/
lemma Lexeme.precedes_of_ne {lexeme next : Lexeme} (h : next.token ≠ .symbol .openParen) :
    lexeme.Precedes next :=
  fun _ _ hn => absurd hn h

/-- Anything can stand behind a symbol. -/
lemma Lexeme.symbol_precedes (s : Symbol) (span : Span) (next : Lexeme) :
    Lexeme.Precedes ⟨.symbol s, span⟩ next := by
  intro word h
  cases h

/-- Lexemes can be put together with a symbol between them that is no opening parenthesis. -/
lemma isChain_append_symbol {us vs : List Lexeme} {s : Symbol} (span : Span)
    (hs : s ≠ .openParen) (hu : us.IsChain Lexeme.Precedes) (hv : vs.IsChain Lexeme.Precedes) :
    (us ++ ⟨.symbol s, span⟩ :: vs).IsChain Lexeme.Precedes := by
  rw [List.isChain_append]
  refine ⟨hu, List.isChain_cons.mpr ⟨fun _ _ => Lexeme.symbol_precedes _ _ _, hv⟩, ?_⟩
  intro x _ y hy
  cases hy
  exact Lexeme.precedes_of_ne (by simpa using hs)

lemma isChain_symbol_cons {us : List Lexeme} (s : Symbol) (span : Span)
    (hu : us.IsChain Lexeme.Precedes) :
    (⟨.symbol s, span⟩ :: us : List Lexeme).IsChain Lexeme.Precedes :=
  List.isChain_cons.mpr ⟨fun _ _ => Lexeme.symbol_precedes s span _, hu⟩

lemma BinaryOp.symbol_ne_openParen (op : BinaryOp) : op.symbol ≠ .openParen := by
  cases op <;> decide

mutual

/-- In an expression a name stands before a parenthesis only if it is that of a call. -/
lemma Derivation.isChain {n : Nonterminal} {ts : List Lexeme} :
    Derivation n ts → ts.IsChain Lexeme.Precedes
  | .condition inner | .operand inner | .primary inner => inner.isChain
  | .choice test yes no split => by
    subst split
    exact isChain_append_symbol _ (by decide) test.isChain
      (isChain_append_symbol _ (by decide) yes.isChain no.isChain)
  | .operation op _ left right split => by
    subst split
    exact isChain_append_symbol _ op.symbol_ne_openParen left.isChain right.isChain
  | .unary op inner split => by
    subst split
    exact isChain_symbol_cons _ _ inner.isChain
  | .number _ split | .boolean _ split | .name _ _ split => by
    subst split
    exact .singleton _
  | .parentheses inner split => by
    subst split
    exact isChain_symbol_cons _ _ (isChain_append_symbol _ (by decide) inner.isChain .nil)
  | .call word function _ _ found arguments split => by
    subst split
    have inside (span : Span) :=
      isChain_append_symbol (s := .closeParen) span (by decide) arguments.isChain .nil
    refine List.isChain_cons.mpr ⟨?_, isChain_symbol_cons _ _ (inside _)⟩
    rintro _ ⟨⟩ _ ⟨⟩ _
    rw [found]
    rfl

lemma Arguments.isChain {n : Nat} {ts : List Lexeme} :
    Arguments n ts → ts.IsChain Lexeme.Precedes
  | .none => .nil
  | .one argument => argument.isChain
  | .more argument others split => by
    subst split
    exact isChain_append_symbol _ (by decide) argument.isChain others.isChain

end

/-- In a derivation only the name of a function is followed by an opening parenthesis, so that the
grammar does not have to look ahead. -/
theorem Derivation.isSome_of_call {n : Nonterminal} {us vs : List Lexeme} {word : String}
    {span opening : Span}
    (d : Derivation n (us ++ ⟨.name word, span⟩ :: ⟨.symbol .openParen, opening⟩ :: vs)) :
    (Builtin.ofName? word).isSome := by
  have hchain := (List.isChain_append.mp d.isChain).2.1
  exact (List.isChain_cons_cons.mp hchain).1 word rfl rfl

end BlockLang
