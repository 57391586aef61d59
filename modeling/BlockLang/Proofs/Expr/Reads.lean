import BlockLang.Proofs.Expr.Grammar

/-!
# What the readers return

`Reads r e rest` says that a reader succeeded with the value `e` and left `rest`. For each reader
one lemma says when that is the case in terms of the readers that it calls.
-/

namespace BlockLang.Expr

variable {α β : Type} {m n stop least : Nat} {ts rest : List Lexeme} {e left : Expr}

/-- A reader returned the value `a` and left the lexemes `rest`. -/
def Reads (r : Except ParseError (Parsed α n)) (a : α) (rest : List Lexeme) : Prop :=
  ∃ h, r = .ok ⟨a, rest, h⟩

/-- A reader returns one value and leaves one rest. -/
lemma Reads.inj {r : Except ParseError (Parsed α n)} {a b : α} {rest rest' : List Lexeme}
    (ha : Reads r a rest) (hb : Reads r b rest') : a = b ∧ rest = rest' := by
  obtain ⟨_, ha⟩ := ha
  obtain ⟨_, hb⟩ := hb
  rw [ha] at hb
  cases hb
  exact ⟨rfl, rfl⟩

/-- A reader that has succeeded returns what it has. -/
@[simp]
lemma reads_ok {a b : α} {rest rest' : List Lexeme} {h : rest.length < n} :
    Reads (n := n) (.ok ⟨a, rest, h⟩) b rest' ↔ a = b ∧ rest = rest' := by
  constructor
  · rintro ⟨_, ⟨⟩⟩
    exact ⟨rfl, rfl⟩
  · rintro ⟨rfl, rfl⟩
    exact ⟨h, rfl⟩

@[simp]
lemma reads_pure {a b : α} {rest rest' : List Lexeme} {h : rest.length < n} :
    Reads (n := n) (pure ⟨a, rest, h⟩) b rest' ↔ a = b ∧ rest = rest' :=
  reads_ok

/-- A reader that has failed returns nothing. -/
@[simp]
lemma not_reads_error {error : ParseError} {a : α} :
    ¬ Reads (n := n) (.error error) a rest := by
  rintro ⟨_, ⟨⟩⟩

@[simp]
lemma not_reads_throw {error : ParseError} {a : α} :
    ¬ Reads (n := n) (throw error) a rest :=
  not_reads_error

/-- Two readers one after the other succeed if both do, the second on what the first one leaves. -/
lemma reads_bind {r : Except ParseError (Parsed α m)}
    {f : Parsed α m → Except ParseError (Parsed β n)} {b : β} :
    Reads (r >>= f) b rest ↔
      ∃ a us, ∃ h : Reads r a us, Reads (f ⟨a, us, h.1⟩) b rest := by
  constructor
  · intro h
    cases r with
    | error => exact absurd h not_reads_error
    | ok p => exact ⟨p.value, p.rest, ⟨p.shorter, rfl⟩, h⟩
  · rintro ⟨a, us, ⟨_, rfl⟩, h⟩
    exact h

/-- A symbol that is expected has to come first, and the place behind it is returned. -/
lemma reads_expect {symbol : Symbol} {what : Expected} {a : Nat} :
    Reads (expect stop symbol what ts) a rest ↔
      ∃ span : Span, ts = ⟨.symbol symbol, span⟩ :: rest ∧ a = span.stop := by
  unfold expect
  split
  case h_1 found span us =>
    split
    · grind [reads_ok]
    · grind [not_reads_error]
  case h_2 h =>
    simp only [not_reads_error, false_iff, not_exists, not_and]
    rintro span rfl
    exact absurd rfl (h _ _ _)

/-- An expression is an operand and what operators make of it. -/
lemma reads_read :
    Reads (read stop least ts) e rest ↔
      ∃ left us, Reads (readOperand stop ts) left us ∧
        Reads (readInfix stop least left us) e rest := by
  rw [read]
  simp only [reads_bind, reads_pure, exists_prop, exists_eq_right_right, exists_eq_right]

/-! ## Operators -/

/-- At the end of the lexemes there is no operator. -/
lemma reads_readInfix_nil :
    Reads (readInfix stop least left []) e rest ↔ left = e ∧ [] = rest := by
  rw [readInfix, reads_ok]

/-- An operator that binds at least as strongly as is asked for takes a right side that binds more
strongly, and reading goes on with the operation as left side. -/
lemma reads_readInfix_binary {t : Lexeme} {op : BinaryOp} (ht : t.token.infix? = some (.binary op))
    (h : least ≤ op.power) :
    Reads (readInfix stop least left (t :: ts)) e rest ↔
      ∃ right us, Reads (read stop (op.power + 1) ts) right us ∧
        Reads (readInfix stop least (.binary op left right) us) e rest := by
  have hp : ¬ (Infix.binary op).power < least := by
    simpa [Infix.power] using h
  rw [readInfix]
  simp only [ht, hp, if_false, reads_bind, reads_pure, exists_prop, exists_eq_right_right,
    exists_eq_right]

/-- A choice takes an expression up to the colon and one behind it, which can be a choice again. -/
lemma reads_readInfix_choice {t : Lexeme} (ht : t.token.infix? = some .choice)
    (h : least ≤ choicePower) :
    Reads (readInfix stop least left (t :: ts)) e rest ↔
      ∃ yes us, Reads (read stop 0 ts) yes us ∧
        ∃ colon vs, us = ⟨.symbol .colon, colon⟩ :: vs ∧
          ∃ no ws, Reads (read stop choicePower vs) no ws ∧
            Reads (readInfix stop least (.choice left yes no) ws) e rest := by
  have hp : ¬ Infix.choice.power < least := by
    simpa [Infix.power] using h
  rw [readInfix]
  simp only [ht, hp, if_false, reads_bind, reads_pure, exists_prop, exists_eq_right_right,
    exists_eq_right, reads_expect]
  grind

/-- The lexemes do not begin with an operator of at least the power `least`. -/
def Stops (least : Nat) (lexemes : List Lexeme) : Prop :=
  ∀ t ∈ lexemes.head?, ∀ op ∈ t.token.infix?, op.power < least

/-- Where no operator follows that binds strongly enough, the left side is all that is read. -/
lemma reads_readInfix_of_stops (h : Stops least ts) :
    Reads (readInfix stop least left ts) e rest ↔ left = e ∧ ts = rest := by
  cases ts with
  | nil => exact reads_readInfix_nil
  | cons t ts =>
    rw [readInfix]
    cases ht : t.token.infix? with
    | none => simp only [reads_ok]
    | some op =>
      have hp : op.power < least := h t rfl op ht
      simp only [hp, if_true, reads_ok]

/-! ## Operands -/

/-- Lexemes start with a symbol if it is the token of the first one. -/
lemma startsWith_eq_true {symbol : Symbol} :
    startsWith symbol ts = true ↔ ∃ span us, ts = ⟨.symbol symbol, span⟩ :: us := by
  rcases ts with _ | ⟨⟨token, span⟩, us⟩
  · simp [startsWith]
  · simp [startsWith]

/-- There is no operand at the end of the lexemes. -/
lemma not_reads_readOperand_nil : ¬ Reads (readOperand stop []) e rest := by
  rw [readOperand]
  exact not_reads_error

/-- Of all symbols, only those of operators with one operand and the opening parenthesis begin an
operand. -/
lemma not_reads_readOperand_symbol {s : Symbol} {span : Span} (hm : s ≠ .minus) (hn : s ≠ .not)
    (hp : s ≠ .openParen) : ¬ Reads (readOperand stop (⟨.symbol s, span⟩ :: ts)) e rest := by
  rw [readOperand]
  · exact not_reads_error
  · exact hm
  · exact hn
  · exact hp

lemma reads_readOperand_number {value : Float} {span : Span} :
    Reads (readOperand stop (⟨.number value, span⟩ :: ts)) e rest ↔
      .number value = e ∧ ts = rest := by
  rw [readOperand, reads_ok]

lemma reads_readOperand_truth {value : Bool} {span : Span} :
    Reads (readOperand stop (⟨.truth value, span⟩ :: ts)) e rest ↔
      .boolean value = e ∧ ts = rest := by
  rw [readOperand, reads_ok]

/-- A name without a parenthesis behind it is a reference. -/
lemma reads_readOperand_name {word : String} {span : Span} (h : startsWith .openParen ts = false) :
    Reads (readOperand stop (⟨.name word, span⟩ :: ts)) e rest ↔
      .name word span = e ∧ ts = rest := by
  rw [readOperand]
  · exact reads_ok
  · rintro _ us rfl
    cases h

/-- A name with a parenthesis behind it is a call, which needs a function of that name and as many
arguments as the function takes. Its span is from the name to the closing parenthesis. -/
lemma reads_readOperand_call {word : String} {span opening : Span} :
    Reads (readOperand stop (⟨.name word, span⟩ :: ⟨.symbol .openParen, opening⟩ :: ts)) e rest ↔
      ∃ function, Builtin.ofName? word = some function ∧
        ∃ arguments us, Reads (readArguments stop ts) arguments us ∧
          ∃ closing : Span, us = ⟨.symbol .closeParen, closing⟩ :: rest ∧
            arguments.length = function.arity ∧
            .call function arguments ⟨span.start, closing.stop⟩ = e := by
  rw [readOperand]
  cases hf : Builtin.ofName? word with
  | none => simp
  | some function =>
    simp only [reads_bind, reads_expect, Option.some.injEq, exists_eq_left']
    constructor
    · rintro ⟨arguments, us, ha, close, vs, ⟨closing, hu, rfl⟩, h⟩
      split at h
      case isTrue hn =>
        obtain ⟨rfl, rfl⟩ := reads_pure.mp h
        exact ⟨arguments, us, ha, closing, hu, hn, rfl⟩
      case isFalse => exact absurd h not_reads_throw
    · rintro ⟨arguments, us, ha, closing, hu, hn, rfl⟩
      refine ⟨arguments, us, ha, closing.stop, rest, ⟨closing, hu, rfl⟩, ?_⟩
      rw [if_pos hn]
      exact reads_pure.mpr ⟨rfl, rfl⟩

/-- An operator with one operand takes what binds as strongly as itself. -/
lemma reads_readOperand_unary {op : UnaryOp} {span : Span} :
    Reads (readOperand stop (⟨.symbol op.symbol, span⟩ :: ts)) e rest ↔
      ∃ operand, Reads (read stop unaryPower ts) operand rest ∧ .unary op operand = e := by
  cases op with
  | negate =>
    rw [UnaryOp.symbol, readOperand]
    simp only [reads_bind, reads_pure]
    grind
  | not =>
    rw [UnaryOp.symbol, readOperand]
    simp only [reads_bind, reads_pure]
    grind

/-- Between parentheses there is an expression, and the parentheses leave no trace in it. -/
lemma reads_readOperand_openParen {span : Span} :
    Reads (readOperand stop (⟨.symbol .openParen, span⟩ :: ts)) e rest ↔
      ∃ us, Reads (read stop 0 ts) e us ∧
        ∃ closing, us = ⟨.symbol .closeParen, closing⟩ :: rest := by
  rw [readOperand]
  simp only [reads_bind, reads_expect, reads_pure]
  grind

/-! ## Arguments -/

/-- Expressions with commas between them are read up to one that has no comma behind it. -/
lemma reads_readSome {es : List Expr} :
    Reads (readSome stop ts) es rest ↔
      ∃ first us, Reads (read stop 0 ts) first us ∧
        if startsWith .comma us then
          ∃ more, Reads (readSome stop us.tail) more rest ∧ first :: more = es
        else [first] = es ∧ us = rest := by
  rw [readSome, reads_bind]
  refine exists_congr fun first => exists_congr fun us => ?_
  by_cases hc : startsWith .comma us
  · simp only [hc, if_true, reads_bind, reads_pure, exists_prop]
    grind
  · simp only [hc, if_false, reads_pure, exists_prop, Bool.false_eq_true]

/-- There are no arguments if the parenthesis is closed at once, and else there is one at least. -/
lemma reads_readArguments {es : List Expr} :
    Reads (readArguments stop ts) es rest ↔
      if startsWith .closeParen ts then [] = es ∧ ts = rest
      else Reads (readSome stop ts) es rest := by
  rw [readArguments]
  split
  · exact reads_pure
  · simp only [reads_bind, reads_pure]
    grind

end BlockLang.Expr
