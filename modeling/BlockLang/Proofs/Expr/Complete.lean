import BlockLang.Proofs.Expr.Reads

/-!
# Derived lexemes are read

The reader finds the tree of every derivation, whatever follows the derived lexemes, as long as it
cannot be taken for a part of them.
-/

namespace BlockLang

/-! ## The power of a nonterminal -/

/-- The power of the operators of a layer. -/
def Layer.power : Layer → Nat
  | or => 4
  | and => 6
  | equality => 8
  | comparison => 10
  | sum => 12
  | product => 14

/-- The least power of the operators that a run of lexemes can have outside parentheses. -/
def Nonterminal.power : Nonterminal → Nat
  | condition => choicePower
  | layer l => l.power
  | unary => unaryPower
  | primary => unaryPower + 2

/-- The operators that can follow a run of lexemes have less than this power. Those of a layer
itself can, since they group to the left. -/
def Nonterminal.limit : Nonterminal → Nat
  | condition => choicePower
  | layer l => l.power + 1
  | unary => unaryPower
  | primary => unaryPower + 2

/-- An operator binds as strongly as its layer. -/
@[simp]
lemma BinaryOp.power_layer (op : BinaryOp) : op.layer.power = op.power := by
  cases op <;> rfl

/-- What can stand behind an operand of a layer binds no more strongly than the layer. -/
lemma Layer.limit_operand (l : Layer) : l.power + 1 ≤ l.operand.limit := by
  cases l <;> decide

lemma Layer.power_operand (l : Layer) : l.operand.power = l.power + 2 := by
  cases l <;> rfl

/-- A choice binds less strongly than any operation. -/
lemma Layer.choicePower_lt (l : Layer) : choicePower < l.power := by
  cases l <;> decide

@[simp]
lemma BinaryOp.infix?_symbol (op : BinaryOp) :
    (Token.symbol op.symbol).infix? = some (.binary op) := by
  cases op <;> rfl

namespace Expr

variable {stop least : Nat} {ts us rest : List Lexeme} {e : Expr}

/-- Where nothing binds strongly enough, nothing binds more strongly still. -/
lemma Stops.mono {a b : Nat} (h : Stops a ts) (hab : a ≤ b) : Stops b ts :=
  fun t ht op hop => lt_of_lt_of_le (h t ht op hop) hab

lemma stops_nil (least : Nat) : Stops least [] := by
  simp [Stops]

lemma stops_cons {t : Lexeme} :
    Stops least (t :: ts) ↔ ∀ op ∈ t.token.infix?, op.power < least := by
  simp [Stops]

/-- A lexeme that is no operator stops every expression. -/
lemma stops_of_infix?_eq_none {t : Lexeme} (h : t.token.infix? = none) : Stops least (t :: ts) := by
  simp [Stops, h]

/-- An operator that does not bind strongly enough stops a reader. -/
lemma stops_binary {op : BinaryOp} {span : Span} (h : op.power < least) :
    Stops least (⟨.symbol op.symbol, span⟩ :: ts) := by
  simpa [stops_cons, Infix.power] using h

@[simp]
lemma startsWith_cons {s : Symbol} {t : Lexeme} :
    startsWith s (t :: ts) = decide (t.token = .symbol s) := by
  simp [startsWith]

/-- No expression begins with a closing parenthesis. -/
lemma not_reads_read_closeParen {span : Span} :
    ¬ Reads (read stop least (⟨.symbol .closeParen, span⟩ :: ts)) e rest := by
  intro h
  obtain ⟨_, _, h, _⟩ := reads_read.mp h
  exact not_reads_readOperand_symbol (by decide) (by decide) (by decide) h

/-! ## What it is to be read -/

/-- To read the lexemes `ts`, which derive from `n`, and more comes down to reading on after them
with the expression `e` on the left. -/
def IsRead (stop : Nat) (n : Nonterminal) (ts : List Lexeme) (e : Expr) : Prop :=
  ∀ ⦃least : Nat⦄ ⦃rest : List Lexeme⦄ ⦃whole : Expr⦄ ⦃rest' : List Lexeme⦄,
    least ≤ n.power → Stops n.limit rest → startsWith .openParen rest = false →
    Reads (readInfix stop least e rest) whole rest' →
    Reads (read stop least (ts ++ rest)) whole rest'

namespace IsRead

variable {n : Nonterminal} {l : Layer}

/-- Lexemes that are read as an expression are read so with others behind them, if these do not go
on with it. -/
lemma reads (h : IsRead stop n ts e) (hl : least ≤ n.power) (hs : Stops least rest)
    (hn : Stops n.limit rest) (hp : startsWith .openParen rest = false) :
    Reads (read stop least (ts ++ rest)) e rest :=
  h hl hn hp ((reads_readInfix_of_stops hs).mpr ⟨rfl, rfl⟩)

/-- A symbol that is no operator stops a reader. -/
lemma reads_before {s : Symbol} {span : Span} (h : IsRead stop n ts e) (hl : least ≤ n.power)
    (hs : s.infix? = none) (hp : s ≠ .openParen) :
    Reads (read stop least (ts ++ ⟨.symbol s, span⟩ :: rest)) e (⟨.symbol s, span⟩ :: rest) := by
  refine h.reads hl (stops_of_infix?_eq_none hs) (stops_of_infix?_eq_none hs) ?_
  simpa using hp

/-- What is read as an operand can be read where any expression is asked for. -/
lemma of_readOperand (h : ∀ rest, startsWith .openParen rest = false →
    Reads (readOperand stop (ts ++ rest)) e rest) : IsRead stop n ts e := by
  intro least rest whole rest' _ _ hp hi
  exact reads_read.mpr ⟨e, rest, h rest hp, hi⟩

/-- An operation is a condition. -/
lemma condition (h : IsRead stop (.layer .or) ts e) : IsRead stop .condition ts e := by
  intro least rest whole rest' hl hs hp hi
  refine h ?_ ?_ hp hi
  · exact hl.trans (Layer.choicePower_lt .or).le
  · exact hs.mono (by decide)

/-- An operand of a layer is in the layer. -/
lemma operand (h : IsRead stop l.operand ts e) : IsRead stop (.layer l) ts e := by
  intro least rest whole rest' hl hs hp hi
  refine h ?_ ?_ hp hi
  · rw [l.power_operand]
    exact Nat.le_add_right_of_le hl
  · exact hs.mono l.limit_operand

/-- A primary expression is an operand without operators in front. -/
lemma primary (h : IsRead stop .primary ts e) : IsRead stop .unary ts e := by
  intro least rest whole rest' hl hs hp hi
  exact h (Nat.le_add_right_of_le hl) (hs.mono (Nat.le_add_right _ _)) hp hi

/-- A choice is read once its three parts are. -/
lemma choice {vs ws : List Lexeme} {question colon : Span} {test yes no : Expr}
    (ht : IsRead stop (.layer .or) us test) (hy : IsRead stop .condition vs yes)
    (hn : IsRead stop .condition ws no) :
    IsRead stop .condition
      (us ++ ⟨.symbol .question, question⟩ :: (vs ++ ⟨.symbol .colon, colon⟩ :: ws))
      (.choice test yes no) := by
  intro least rest whole rest' hl hs hp hi
  rw [List.append_assoc, List.cons_append, List.append_assoc, List.cons_append]
  refine ht (hl.trans (by decide)) (stops_cons.mpr ?_) (by simp) ?_
  · rintro _ ⟨⟩
    decide
  rw [reads_readInfix_choice rfl hl]
  -- The colon ends the first branch, and what follows the choice ends the second one.
  have hyes : Reads (read stop 0 (vs ++ ⟨.symbol .colon, colon⟩ :: (ws ++ rest))) yes
      (⟨.symbol .colon, colon⟩ :: (ws ++ rest)) :=
    hy.reads_before (Nat.zero_le _) rfl (by decide)
  have hno := hn.reads le_rfl hs hs hp
  exact ⟨yes, _, hyes, colon, _, rfl, no, rest, hno, hi⟩

/-- An operation is read once its two sides are, of which the left one can be of the same layer. -/
lemma operation {vs : List Lexeme} {span : Span} {op : BinaryOp} {left right : Expr}
    (hop : op.layer = l) (hleft : IsRead stop (.layer l) us left)
    (hright : IsRead stop l.operand vs right) :
    IsRead stop (.layer l) (us ++ ⟨.symbol op.symbol, span⟩ :: vs) (.binary op left right) := by
  subst hop
  intro least rest whole rest' hl hs hp hi
  have hs' : Stops (op.power + 1) rest := by
    rw [← op.power_layer]
    exact hs
  rw [List.append_assoc, List.cons_append]
  refine hleft hl (stops_binary ?_) (by simpa using op.symbol_ne_openParen) ?_
  · show op.power < op.layer.power + 1
    rw [op.power_layer]
    exact Nat.lt_succ_self _
  rw [reads_readInfix_binary op.infix?_symbol (op.power_layer ▸ hl)]
  -- The right side ends before the next operator of the layer.
  refine ⟨right, rest, hright.reads ?_ hs' (hs.mono op.layer.limit_operand) hp, hi⟩
  rw [op.layer.power_operand, op.power_layer]
  omega

/-- An operator in front is read once its operand is. -/
lemma unary {span : Span} {op : UnaryOp} (h : IsRead stop .unary us e) :
    IsRead stop .unary (⟨.symbol op.symbol, span⟩ :: us) (.unary op e) := by
  intro least rest whole rest' hl hs hp hi
  refine reads_read.mpr ⟨.unary op e, rest, ?_, hi⟩
  exact reads_readOperand_unary.mpr ⟨e, h.reads le_rfl hs hs hp, rfl⟩

/-- Any expression is read between parentheses. -/
lemma parentheses {opening closing : Span} (h : IsRead stop .condition us e) :
    IsRead stop .primary
      (⟨.symbol .openParen, opening⟩ :: (us ++ [⟨.symbol .closeParen, closing⟩])) e := by
  refine of_readOperand fun rest _ => ?_
  rw [List.cons_append, List.append_assoc, List.singleton_append]
  have hinner : Reads (read stop 0 (us ++ ⟨.symbol .closeParen, closing⟩ :: rest)) e
      (⟨.symbol .closeParen, closing⟩ :: rest) :=
    h.reads_before (Nat.zero_le _) rfl (by decide)
  exact reads_readOperand_openParen.mpr ⟨_, hinner, closing, rfl⟩

/-- A call is read once its arguments are, if the function is known and takes as many. -/
lemma call {es : List Expr} {word : String} {function : Builtin} {span opening closing : Span}
    (hf : Builtin.ofName? word = some function) (hes : es.length = function.arity)
    (h : ∀ rest, Reads (readArguments stop (us ++ ⟨.symbol .closeParen, closing⟩ :: rest)) es
      (⟨.symbol .closeParen, closing⟩ :: rest)) :
    IsRead stop .primary
      (⟨.name word, span⟩ :: ⟨.symbol .openParen, opening⟩ ::
        (us ++ [⟨.symbol .closeParen, closing⟩]))
      (.call function es ⟨span.start, closing.stop⟩) := by
  refine of_readOperand fun rest _ => ?_
  rw [List.cons_append, List.cons_append, List.append_assoc, List.singleton_append]
  exact reads_readOperand_call.mpr ⟨function, hf, es, _, h rest, closing, rfl, hes, rfl⟩

end IsRead

/-- The lexemes `ts` before a closing parenthesis are read as arguments. -/
def AreRead (stop : Nat) (ts : List Lexeme) (es : List Expr) : Prop :=
  ∀ closing rest, Reads (readSome stop (ts ++ ⟨.symbol .closeParen, closing⟩ :: rest)) es
    (⟨.symbol .closeParen, closing⟩ :: rest)

namespace AreRead

variable {es : List Expr}

/-- One argument is read if its expression is. -/
lemma one (h : IsRead stop .condition ts e) : AreRead stop ts [e] := by
  intro closing rest
  rw [reads_readSome]
  refine ⟨e, _, h.reads_before (Nat.zero_le _) rfl (by decide), ?_⟩
  simp

/-- Arguments are read if the first one is, and those behind the comma. -/
lemma more {comma : Span} (h : IsRead stop .condition us e) (hs : AreRead stop ts es) :
    AreRead stop (us ++ ⟨.symbol .comma, comma⟩ :: ts) (e :: es) := by
  intro closing rest
  rw [List.append_assoc, List.cons_append, reads_readSome]
  refine ⟨e, _, h.reads_before (Nat.zero_le _) rfl (by decide), ?_⟩
  rw [if_pos (by simp)]
  exact ⟨es, hs closing rest, rfl⟩

/-- Arguments that are read can be read up to the closing parenthesis of a call. -/
lemma reads_readArguments (h : AreRead stop ts es) (closing : Span) (rest : List Lexeme) :
    Reads (readArguments stop (ts ++ ⟨.symbol .closeParen, closing⟩ :: rest)) es
      (⟨.symbol .closeParen, closing⟩ :: rest) := by
  rw [Expr.reads_readArguments, if_neg]
  · exact h closing rest
  intro hc
  obtain ⟨first, _, hr, _⟩ := reads_readSome.mp (h closing rest)
  obtain ⟨span, vs, hc⟩ := startsWith_eq_true.mp hc
  rw [hc] at hr
  exact not_reads_read_closeParen hr

end AreRead

end Expr

open BlockLang.Expr

/-- Arguments have as many trees as they count. -/
@[simp]
lemma Arguments.length_trees {n : Nat} {ts : List Lexeme} (arguments : Arguments n ts) :
    arguments.trees.length = n := by
  cases arguments with
  | none => rfl
  | one => rfl
  | more _ others _ => rw [Arguments.trees, List.length_cons, others.length_trees]

/-- Whether there are arguments or not, they are read up to the closing parenthesis. -/
lemma Arguments.reads {stop n : Nat} {ts : List Lexeme} (arguments : Arguments n ts)
    (h : n ≠ 0 → AreRead stop ts arguments.trees) (closing : Span) (rest : List Lexeme) :
    Reads (readArguments stop (ts ++ ⟨.symbol .closeParen, closing⟩ :: rest)) arguments.trees
      (⟨.symbol .closeParen, closing⟩ :: rest) := by
  cases arguments with
  | none =>
    rw [List.nil_append, reads_readArguments, if_pos (by simp)]
    exact ⟨rfl, rfl⟩
  | one => exact (h (by omega)).reads_readArguments closing rest
  | more => exact (h (by omega)).reads_readArguments closing rest

mutual

/-- The reader finds the tree of every derivation. -/
theorem Derivation.isRead {stop : Nat} {n : Nonterminal} {ts : List Lexeme} :
    (d : Derivation n ts) → IsRead stop n ts d.tree
  | .condition inner => inner.isRead.condition
  | .choice test yes no split => split ▸ test.isRead.choice yes.isRead no.isRead
  | .operand inner => inner.isRead.operand
  | .operation _ member left right split => split ▸ left.isRead.operation member right.isRead
  | .primary inner => inner.isRead.primary
  | .unary _ inner split => split ▸ inner.isRead.unary
  | .number value split => by
    subst split
    exact .of_readOperand fun rest _ => reads_readOperand_number.mpr ⟨rfl, rfl⟩
  | .boolean value split => by
    subst split
    exact .of_readOperand fun rest _ => reads_readOperand_truth.mpr ⟨rfl, rfl⟩
  | .name word span split => by
    subst split
    exact .of_readOperand fun rest hp => (reads_readOperand_name hp).mpr ⟨rfl, rfl⟩
  | .parentheses inner split => split ▸ inner.isRead.parentheses
  | .call _ _ _ _ found arguments split =>
    split ▸ .call found arguments.length_trees (arguments.reads arguments.areRead _)

/-- Derived arguments are read up to a closing parenthesis. -/
theorem Arguments.areRead {stop n : Nat} {ts : List Lexeme} :
    (arguments : Arguments n ts) → n ≠ 0 → AreRead stop ts arguments.trees
  | .none, h => absurd rfl h
  | .one argument, _ => .one argument.isRead
  | .more argument others split, _ => split ▸ .more argument.isRead (others.areRead (by omega))

end

end BlockLang
