import BlockLang.Proofs.Expr.References

/-!
# Moved texts

The positions that parsing keeps are those of lexemes. Main statements: lexemes at other positions
stand for the same instructions with the positions changed alike, and these instructions do the
same, up to the position of the name that they fail at.
-/

namespace BlockLang

variable {move : Nat → Nat}

/-! ## Positions -/

def Span.moved (move : Nat → Nat) (span : Span) : Span := ⟨move span.start, move span.stop⟩

namespace Lexeme

def moved (move : Nat → Nat) (t : Lexeme) : Lexeme := ⟨t.token, t.span.moved move⟩

/-- Lexemes that are moved have an extent that is moved. -/
lemma extent_map_moved {ts : List Lexeme} (hne : ts ≠ []) :
    extent (ts.map (moved move)) = (extent ts).moved move := by
  have hne' : ts.map (moved move) ≠ [] := by simpa using hne
  rw [extent_eq hne', extent_eq hne, List.head_map, List.getLast_map]
  rfl

end Lexeme

namespace Expr

mutual

/-- The expression with other positions. -/
def moved (move : Nat → Nat) : Expr → Expr
  | number a => number a
  | boolean b => boolean b
  | name n span => name n (span.moved move)
  | call f arguments span => call f (movedAll move arguments) (span.moved move)
  | unary op operand => unary op (moved move operand)
  | binary op left right => binary op (moved move left) (moved move right)
  | choice condition yes no => choice (moved move condition) (moved move yes) (moved move no)

def movedAll (move : Nat → Nat) : List Expr → List Expr
  | [] => []
  | e :: es => moved move e :: movedAll move es

end

end Expr

def Instruction.moved (move : Nat → Nat) : Instruction → Instruction
  | assign target op value span => assign target op (value.moved move) (span.moved move)
  | bare value span => bare (value.moved move) (span.moved move)

def UnboundName.moved (move : Nat → Nat) (r : UnboundName) : UnboundName :=
  ⟨r.name, r.span.moved move⟩

def ParseError.moved (move : Nat → Nat) (error : ParseError) : ParseError :=
  ⟨error.cause, error.span.moved move⟩

def ExprError.moved (move : Nat → Nat) : ExprError → ExprError
  | syntaxError error => syntaxError (error.moved move)
  | unbound reference => unbound (reference.moved move)

/-! ## Derivations -/

mutual

/-- Moved lexemes derive the moved expression. -/
theorem Derivation.exists_moved {n : Nonterminal} {ts : List Lexeme} (move : Nat → Nat) :
    (d : Derivation n ts) →
      ∃ d' : Derivation n (ts.map (Lexeme.moved move)), d'.tree = d.tree.moved move
  | .condition inner => by
    obtain ⟨d, hd⟩ := inner.exists_moved move
    exact ⟨.condition d, hd⟩
  | .operand inner => by
    obtain ⟨d, hd⟩ := inner.exists_moved move
    exact ⟨.operand d, hd⟩
  | .primary inner => by
    obtain ⟨d, hd⟩ := inner.exists_moved move
    exact ⟨.primary d, hd⟩
  -- A rule splits the moved lexemes where it splits the lexemes.
  | .choice test yes no split => by
    obtain ⟨test', htest⟩ := test.exists_moved move
    obtain ⟨yes', hyes⟩ := yes.exists_moved move
    obtain ⟨no', hno⟩ := no.exists_moved move
    have hsplit := congrArg (List.map (Lexeme.moved move)) split
    simp only [List.map_append, List.map_cons] at hsplit
    refine ⟨.choice test' yes' no' hsplit, ?_⟩
    simp only [Derivation.tree, Expr.moved, htest, hyes, hno]
  | .operation op member left right split => by
    obtain ⟨left', hleft⟩ := left.exists_moved move
    obtain ⟨right', hright⟩ := right.exists_moved move
    have hsplit := congrArg (List.map (Lexeme.moved move)) split
    simp only [List.map_append, List.map_cons] at hsplit
    refine ⟨.operation op member left' right' hsplit, ?_⟩
    simp only [Derivation.tree, Expr.moved, hleft, hright]
  | .unary op inner split => by
    obtain ⟨d, hd⟩ := inner.exists_moved move
    refine ⟨.unary op d (congrArg (List.map (Lexeme.moved move)) split), ?_⟩
    simp only [Derivation.tree, Expr.moved, hd]
  | .number value split => ⟨.number value (congrArg (List.map (Lexeme.moved move)) split), rfl⟩
  | .boolean value split => ⟨.boolean value (congrArg (List.map (Lexeme.moved move)) split), rfl⟩
  | .name word span split =>
    ⟨.name word (span.moved move) (congrArg (List.map (Lexeme.moved move)) split), rfl⟩
  | .parentheses inner split => by
    obtain ⟨d, hd⟩ := inner.exists_moved move
    have hsplit := congrArg (List.map (Lexeme.moved move)) split
    simp only [List.map_append, List.map_cons, List.map_nil] at hsplit
    refine ⟨.parentheses d hsplit, ?_⟩
    simp only [Derivation.tree, hd]
  | .call word function span closing found arguments split => by
    obtain ⟨arguments', harguments⟩ := arguments.exists_moved move
    have hsplit := congrArg (List.map (Lexeme.moved move)) split
    simp only [List.map_append, List.map_cons, List.map_nil] at hsplit
    refine ⟨.call word function (span.moved move) (closing.moved move) found arguments' hsplit, ?_⟩
    simp only [Derivation.tree, Expr.moved, harguments]
    rfl

theorem Arguments.exists_moved {n : Nat} {ts : List Lexeme} (move : Nat → Nat) :
    (d : Arguments n ts) →
      ∃ d' : Arguments n (ts.map (Lexeme.moved move)), d'.trees = Expr.movedAll move d.trees
  | .none => ⟨.none, rfl⟩
  | .one argument => by
    obtain ⟨d, hd⟩ := argument.exists_moved move
    refine ⟨.one d, ?_⟩
    simp only [Arguments.trees, Expr.movedAll, hd]
  | .more argument others split => by
    obtain ⟨d, hd⟩ := argument.exists_moved move
    obtain ⟨others', hothers⟩ := others.exists_moved move
    have hsplit := congrArg (List.map (Lexeme.moved move)) split
    simp only [List.map_append, List.map_cons] at hsplit
    refine ⟨.more d others' hsplit, ?_⟩
    simp only [Arguments.trees, Expr.movedAll, hd, hothers]

end

namespace Instruction

/-- A moved segment stands for the moved instruction. -/
lemma OfSegment.moved {ts : List Lexeme} {i : Instruction} (h : OfSegment ts i)
    (move : Nat → Nat) : OfSegment (ts.map (Lexeme.moved move)) (i.moved move) := by
  cases h with
  | @assign us target span op value split =>
    obtain ⟨d, hd⟩ := value.exists_moved move
    have hsplit := congrArg (List.map (Lexeme.moved move)) split
    have hne : ts ≠ [] := by simp [split]
    rw [Instruction.moved, ← hd, ← Lexeme.extent_map_moved hne]
    exact .assign op d hsplit
  | increment split =>
    have hsplit := congrArg (List.map (Lexeme.moved move)) split
    have hne : ts ≠ [] := by simp [split]
    rw [Instruction.moved, Expr.moved, ← Lexeme.extent_map_moved hne]
    exact .increment hsplit
  | decrement split =>
    have hsplit := congrArg (List.map (Lexeme.moved move)) split
    have hne : ts ≠ [] := by simp [split]
    rw [Instruction.moved, Expr.moved, ← Lexeme.extent_map_moved hne]
    exact .decrement hsplit
  | bare value =>
    obtain ⟨d, hd⟩ := value.exists_moved move
    rw [Instruction.moved, ← hd, ← Lexeme.extent_map_moved value.ne_nil]
    exact .bare d

/-- A segment stands for one instruction. -/
lemma OfSegment.eq {ts : List Lexeme} {i j : Instruction} (hne : ts ≠ []) (hi : OfSegment ts i)
    (hj : OfSegment ts j) : i = j := by
  cases ts with
  | nil => exact absurd rfl hne
  | cons first more =>
    have hreads : ofLexemes 0 first more = .ok i := ofLexemes_of_ofSegment hi
    rw [ofLexemes_of_ofSegment hj] at hreads
    exact (Except.ok.inj hreads).symm

/-- If the change of positions can be undone, a moved segment stands for nothing else. -/
theorem ofSegment_map_moved_iff {ts : List Lexeme} (hne : ts ≠ []) (back : Nat → Nat)
    (hback : ∀ n, back (move n) = n) (j : Instruction) :
    OfSegment (ts.map (Lexeme.moved move)) j ↔ ∃ i, OfSegment ts i ∧ i.moved move = j := by
  constructor
  · intro hj
    have hid : (ts.map (Lexeme.moved move)).map (Lexeme.moved back) = ts := by
      rw [List.map_map]
      refine .trans (List.map_congr_left fun t _ => ?_) (List.map_id ts)
      simp [Lexeme.moved, Span.moved, hback]
    have hi := hj.moved back
    rw [hid] at hi
    have hne' : ts.map (Lexeme.moved move) ≠ [] := by simpa using hne
    exact ⟨j.moved back, hi, OfSegment.eq hne' (hi.moved move) hj⟩
  · rintro ⟨i, hi, rfl⟩
    exact hi.moved move

end Instruction

/-! ## Evaluation -/

mutual

/-- A moved expression has the same value, or fails at the same name. -/
theorem Expr.eval_moved (e : Expr) (x : Float) (scopes : Scopes) :
    (e.moved move).eval x scopes = (e.eval x scopes).mapError (UnboundName.moved move) := by
  cases e with
  | number a => rfl
  | boolean b => rfl
  | name n span =>
    rw [moved, eval, eval]
    split
    · rfl
    · cases scopes.get? n <;> rfl
  | call f arguments span =>
    rw [moved, eval, eval, Expr.evalList_movedAll arguments x scopes]
    cases Expr.evalList x scopes arguments <;> rfl
  | unary op operand =>
    rw [moved, eval, eval, operand.eval_moved x scopes]
    cases operand.eval x scopes <;> rfl
  | binary op left right =>
    rw [moved, eval, eval, left.eval_moved x scopes, right.eval_moved x scopes]
    cases left.eval x scopes with
    | error r => rfl
    | ok a =>
      show (if op.decidedBy a then _ else _) = Except.mapError _ (if op.decidedBy a then _ else _)
      split
      · rfl
      · cases right.eval x scopes <;> rfl
  | choice condition yes no =>
    rw [moved, eval, eval, condition.eval_moved x scopes, yes.eval_moved x scopes,
      no.eval_moved x scopes]
    cases condition.eval x scopes with
    | error r => rfl
    | ok v =>
      show (if v.isTruthy then _ else _) = Except.mapError _ (if v.isTruthy then _ else _)
      split <;> rfl

theorem Expr.evalList_movedAll (es : List Expr) (x : Float) (scopes : Scopes) :
    Expr.evalList x scopes (Expr.movedAll move es) =
      (Expr.evalList x scopes es).mapError (UnboundName.moved move) := by
  cases es with
  | nil => rfl
  | cons e es =>
    rw [movedAll, evalList, evalList, e.eval_moved x scopes, Expr.evalList_movedAll es x scopes]
    cases e.eval x scopes with
    | error r => rfl
    | ok v => cases Expr.evalList x scopes es <;> rfl

end

/-- An instruction that is moved does the same, and fails at a place that is moved. -/
lemma Instruction.exec_moved (i : Instruction) (x : Float) (scopes : Scopes) :
    (i.moved move).exec scopes x = (i.exec scopes x).mapError (UnboundName.moved move) := by
  cases i with
  | assign target op value span =>
    rw [moved, exec, exec, value.eval_moved x scopes]
    cases value.eval x scopes <;> rfl
  | bare value span =>
    rw [moved, exec, exec, value.eval_moved x scopes]
    cases value.eval x scopes <;> rfl

/-- Moved instructions do the same, or fail at the same name. -/
theorem execAll_moved (is : List Instruction) (x : Float) (scopes : Scopes) :
    execAll scopes (is.map (Instruction.moved move)) x =
      (execAll scopes is x).mapError (UnboundName.moved move) := by
  induction is generalizing x with
  | nil => rfl
  | cons i is ih =>
    rw [List.map_cons, execAll, execAll, List.foldlM_cons, List.foldlM_cons, i.exec_moved x scopes]
    cases i.exec scopes x with
    | error r => rfl
    | ok y => exact ih y

end BlockLang
