import BlockLang.Proofs.Expr.Complete

/-!
# The grammar is not ambiguous

No lexemes have two derivations from one nonterminal. That a run of lexemes ends at one place only
is known from the reader, which finds each of its derivations.
-/

namespace BlockLang

open BlockLang.Expr

variable {n : Nonterminal} {l : Layer} {op op' : BinaryOp} {s s' : Span}
variable {ts us us' vs vs' rest rest' : List Lexeme}

/-- What follows cannot be taken for a part of a run of lexemes from `n`. -/
def Nonterminal.EndsBefore (n : Nonterminal) (rest : List Lexeme) : Prop :=
  Stops n.power rest ∧ startsWith .openParen rest = false

lemma Nonterminal.endsBefore_nil (n : Nonterminal) : n.EndsBefore [] :=
  ⟨stops_nil _, rfl⟩

/-- A symbol that is no operator ends an expression, unless it opens a parenthesis. -/
lemma Nonterminal.endsBefore_symbol {n : Nonterminal} {symbol : Symbol} (hs : symbol.infix? = none)
    (hp : symbol ≠ .openParen) : n.EndsBefore (⟨.symbol symbol, s⟩ :: rest) :=
  ⟨stops_of_infix?_eq_none hs, by simpa using hp⟩

/-- The question mark of a choice ends an operation. -/
lemma Nonterminal.endsBefore_question (l : Layer) :
    (Nonterminal.layer l).EndsBefore (⟨.symbol .question, s⟩ :: rest) := by
  refine ⟨stops_cons.mpr ?_, by simp⟩
  rintro _ ⟨⟩
  exact l.choicePower_lt

/-- An operator of a layer ends an operand of the layer. -/
lemma Layer.endsBefore_symbol (h : op.layer = l) :
    l.operand.EndsBefore (⟨.symbol op.symbol, s⟩ :: rest) := by
  refine ⟨stops_binary ?_, by simpa using op.symbol_ne_openParen⟩
  rw [l.power_operand, ← h, op.power_layer]
  omega

lemma Nonterminal.power_le_limit (n : Nonterminal) : n.power ≤ n.limit := by
  cases n with
  | layer l => exact Nat.le_succ _
  | _ => exact le_rfl

/-- Runs of lexemes from one nonterminal that begin at the same place end at the same place. -/
theorem Derivation.eq_of_append_eq (d : Derivation n us) (d' : Derivation n us')
    (h : n.EndsBefore rest) (h' : n.EndsBefore rest') (heq : us ++ rest = us' ++ rest') :
    us = us' ∧ rest = rest' := by
  have hr : Reads (read 0 n.power (us ++ rest)) d.tree rest :=
    d.isRead.reads le_rfl h.1 (h.1.mono n.power_le_limit) h.2
  have hr' : Reads (read 0 n.power (us' ++ rest')) d'.tree rest' :=
    d'.isRead.reads le_rfl h'.1 (h'.1.mono n.power_le_limit) h'.2
  rw [← heq] at hr'
  obtain ⟨-, rfl⟩ := hr.inj hr'
  exact ⟨List.append_cancel_right heq, rfl⟩

/-! ## Where the operators of a layer stand -/

/-- A run of lexemes from a layer begins with an operand, and an operator after it belongs to the
layer and has the rest of a run after it. -/
lemma Derivation.exists_first {l : Layer} {ts : List Lexeme} : Derivation (.layer l) ts →
    ∃ us rest, ts = us ++ rest ∧ Nonempty (Derivation l.operand us) ∧
      (rest = [] ∨ ∃ op s vs, op.layer = l ∧ rest = ⟨.symbol (BinaryOp.symbol op), s⟩ :: vs ∧
        Nonempty (Derivation (.layer l) vs))
  | .operand inner => ⟨ts, [], by simp, ⟨inner⟩, .inl rfl⟩
  | .operation op member left right split => by
    obtain ⟨us, rest, rfl, hu, rfl | ⟨op', s', vs, hop', rfl, ⟨d⟩⟩⟩ := left.exists_first
    · rw [List.append_nil] at split
      exact ⟨us, _, split, hu, .inr ⟨op, _, _, member, rfl, ⟨.operand right⟩⟩⟩
    · rw [List.append_assoc] at split
      exact ⟨us, _, split, hu, .inr ⟨op', s', _, hop', rfl, ⟨.operation op member d right rfl⟩⟩⟩

/-- An operand of a layer is not a run of the layer with one of its operators after it. -/
lemma Derivation.operand_ne (d : Derivation l.operand ts) (d' : Derivation (.layer l) us)
    (hop : op.layer = l) : ts ≠ us ++ ⟨.symbol op.symbol, s⟩ :: vs := by
  intro h
  -- The first operand of the run would end before the operator, and `ts` would not.
  obtain ⟨ws, rest, rfl, ⟨first⟩, hrest⟩ := d'.exists_first
  have hends : l.operand.EndsBefore (rest ++ ⟨.symbol op.symbol, s⟩ :: vs) := by
    rcases hrest with rfl | ⟨op', s', ws', hop', rfl, _⟩
    · exact Layer.endsBefore_symbol hop
    · exact Layer.endsBefore_symbol hop'
  have heq : ts ++ [] = ws ++ (rest ++ ⟨.symbol op.symbol, s⟩ :: vs) := by
    simpa using h
  obtain ⟨-, hnil⟩ := d.eq_of_append_eq first (Nonterminal.endsBefore_nil _) hends heq
  simp at hnil

/-- The last operator of a run of lexemes from a layer stands at one place only. -/
lemma Derivation.left_eq (hleft : Derivation (.layer l) us) (hleft' : Derivation (.layer l) us')
    (hright : Derivation l.operand vs) (hright' : Derivation l.operand vs') (hop : op.layer = l)
    (hop' : op'.layer = l)
    (h : us ++ ⟨.symbol op.symbol, s⟩ :: vs = us' ++ ⟨.symbol op'.symbol, s'⟩ :: vs') :
    us = us' := by
  induction hlen : us.length using Nat.strong_induction_on generalizing us us' with
  | _ length ih =>
    subst hlen
    obtain ⟨ws, rest, rfl, ⟨first⟩, hrest⟩ := hleft.exists_first
    obtain ⟨ws', rest', rfl, ⟨first'⟩, hrest'⟩ := hleft'.exists_first
    rw [List.append_assoc, List.append_assoc] at h
    have hends : l.operand.EndsBefore (rest ++ ⟨.symbol op.symbol, s⟩ :: vs) := by
      rcases hrest with rfl | ⟨_, _, _, hnext, rfl, _⟩
      · exact Layer.endsBefore_symbol hop
      · exact Layer.endsBefore_symbol hnext
    have hends' : l.operand.EndsBefore (rest' ++ ⟨.symbol op'.symbol, s'⟩ :: vs') := by
      rcases hrest' with rfl | ⟨_, _, _, hnext, rfl, _⟩
      · exact Layer.endsBefore_symbol hop'
      · exact Layer.endsBefore_symbol hnext
    obtain ⟨rfl, hrests⟩ := first.eq_of_append_eq first' hends hends' h
    -- If only one of the runs went on, the operand after the other one would hold an operator.
    rcases hrest with rfl | ⟨next, t, xs, hnext, rfl, ⟨more⟩⟩ <;>
      rcases hrest' with rfl | ⟨next', t', xs', hnext', rfl, ⟨more'⟩⟩
    · rfl
    · obtain ⟨-, h⟩ := List.cons.inj hrests
      exact absurd h (hright.operand_ne more' hop')
    · obtain ⟨-, h⟩ := List.cons.inj hrests
      exact absurd h.symm (hright'.operand_ne more hop)
    · obtain ⟨hhead, h⟩ := List.cons.inj hrests
      have hlen : xs.length < (ws ++ ⟨.symbol next.symbol, t⟩ :: xs).length := by
        simp only [List.length_append, List.length_cons]
        omega
      rw [hhead, ih xs.length hlen more more' h rfl]

/-! ## Derivations of the same lexemes -/

/-- Operators have different symbols. -/
lemma BinaryOp.symbol_inj (h : op.symbol = op'.symbol) : op = op' := by
  cases op <;> cases op' <;> first | rfl | cases h

lemma UnaryOp.symbol_inj {op op' : UnaryOp} (h : op.symbol = op'.symbol) : op = op' := by
  cases op <;> cases op' <;> first | rfl | cases h

/-- A primary expression does not begin with an operator. -/
lemma Derivation.primary_ne (d : Derivation .primary ts) (op : UnaryOp) :
    ts ≠ ⟨.symbol op.symbol, s⟩ :: us := by
  rintro rfl
  cases d with
  | number _ split | boolean _ split | name _ _ split => cases split
  | parentheses _ split => cases op <;> cases split
  | call _ _ _ _ _ _ split => cases split

mutual

/-- Lexemes have at most one derivation from a nonterminal. -/
theorem Derivation.eq {n : Nonterminal} {ts : List Lexeme} : ∀ d d' : Derivation n ts, d = d'
  | .condition inner, d' => by
    cases d' with
    | condition inner' => rw [inner.eq inner']
    | choice test _ _ split =>
      -- The whole run and the part before the question mark would both end where they do.
      obtain ⟨-, h⟩ := inner.eq_of_append_eq test (Nonterminal.endsBefore_nil _)
        (Nonterminal.endsBefore_question _) ((List.append_nil _).trans split)
      cases h
  | .choice test yes no split, d' => by
    cases d' with
    | condition inner =>
      obtain ⟨-, h⟩ := inner.eq_of_append_eq test (Nonterminal.endsBefore_nil _)
        (Nonterminal.endsBefore_question _) ((List.append_nil _).trans split)
      cases h
    | choice test' yes' no' split' =>
      subst split
      obtain ⟨rfl, h⟩ := test.eq_of_append_eq test' (Nonterminal.endsBefore_question _)
        (Nonterminal.endsBefore_question _) split'
      obtain ⟨⟨⟩, hyes⟩ := List.cons.inj h
      obtain ⟨rfl, hno⟩ := yes.eq_of_append_eq yes'
        (Nonterminal.endsBefore_symbol rfl (by decide))
        (Nonterminal.endsBefore_symbol rfl (by decide)) hyes
      obtain ⟨⟨⟩, rfl⟩ := List.cons.inj hno
      rw [test.eq test', yes.eq yes', no.eq no']
  | .operand inner, d' => by
    cases d' with
    | operand inner' => rw [inner.eq inner']
    | operation op member left right split => exact absurd split (inner.operand_ne left member)
  | .operation op member left right split, d' => by
    cases d' with
    | operand inner => exact absurd split (inner.operand_ne left member)
    | operation op' member' left' right' split' =>
      subst split
      -- The last operator is the same one, so the sides can be compared one by one.
      obtain rfl := left.left_eq left' right right' member member' split'
      obtain ⟨hop, rfl⟩ := List.cons.inj (List.append_cancel_left split')
      obtain rfl := BinaryOp.symbol_inj (by simpa using congrArg Lexeme.token hop)
      cases hop
      rw [left.eq left', right.eq right']
  | .primary inner, d' => by
    cases d' with
    | primary inner' => rw [inner.eq inner']
    -- No primary begins with an operator.
    | unary op _ split => exact absurd split (inner.primary_ne op)
  | .unary op inner split, d' => by
    cases d' with
    | primary inner' => exact absurd split (inner'.primary_ne op)
    | unary op' inner' split' =>
      subst split
      obtain ⟨hop, rfl⟩ := List.cons.inj split'
      obtain rfl := UnaryOp.symbol_inj (by simpa using congrArg Lexeme.token hop)
      cases hop
      rw [inner.eq inner']
  | .number value split, d' => by
    subst split
    cases d' with
    | number value' split' =>
      cases split'
      rfl
    | boolean _ split' | name _ _ split' | parentheses _ split' => cases split'
    | call _ _ _ _ _ _ split' => cases split'
  | .boolean value split, d' => by
    subst split
    cases d' with
    | boolean value' split' =>
      cases split'
      rfl
    | number _ split' | name _ _ split' | parentheses _ split' => cases split'
    | call _ _ _ _ _ _ split' => cases split'
  | .name word span split, d' => by
    subst split
    cases d' with
    | name _ _ split' =>
      cases split'
      rfl
    | number _ split' | boolean _ split' | parentheses _ split' => cases split'
    | call _ _ _ _ _ _ split' => cases split'
  | .parentheses inner split, d' => by
    subst split
    cases d' with
    | parentheses inner' split' =>
      obtain ⟨⟨⟩, h⟩ := List.cons.inj split'
      obtain ⟨rfl, ⟨⟩⟩ := List.append_inj' h rfl
      rw [inner.eq inner']
    | number _ split' | boolean _ split' | name _ _ split' => cases split'
    | call _ _ _ _ _ _ split' => cases split'
  | .call word function span closing found arguments split, d' => by
    subst split
    cases d' with
    | call word' function' span' closing' found' arguments' split' =>
      obtain ⟨⟨⟩, h⟩ := List.cons.inj split'
      obtain ⟨⟨⟩, hinside⟩ := List.cons.inj h
      obtain ⟨rfl, ⟨⟩⟩ := List.append_inj' hinside rfl
      obtain rfl := Option.some.inj (found.symm.trans found')
      rw [arguments.eq arguments']
    | number _ split' | boolean _ split' | name _ _ split' | parentheses _ split' => cases split'

theorem Arguments.eq {n : Nat} {ts : List Lexeme} : ∀ a a' : Arguments n ts, a = a'
  | .none, a' => by
    cases a'
    rfl
  | .one argument, a' => by
    cases a' with
    | one argument' => rw [argument.eq argument']
  | .more argument others split, a' => by
    cases a' with
    | more argument' others' split' =>
      subst split
      obtain ⟨rfl, h⟩ := argument.eq_of_append_eq argument'
        (Nonterminal.endsBefore_symbol rfl (by decide))
        (Nonterminal.endsBefore_symbol rfl (by decide)) split'
      obtain ⟨⟨⟩, rfl⟩ := List.cons.inj h
      rw [argument.eq argument', others.eq others']

end

end BlockLang
