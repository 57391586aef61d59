import BlockLang.Proofs.Expr.Sequences

/-!
# Spellings of the same lexemes

Where lexemes stand, and whether a function is called by its name with or without `Math.`, shows
only in the positions of what is read. Main statement: two texts whose lexemes differ in nothing
else stand for the same trees, or for none.
-/

namespace BlockLang

/-! ## Trees without positions -/

def Expr.unplaced (e : Expr) : Expr := e.moved fun _ => 0

def Expr.unplacedAll (es : List Expr) : List Expr := movedAll (fun _ => 0) es

def Instruction.unplaced (i : Instruction) : Instruction := i.moved fun _ => 0

section

variable (move : Nat → Nat)

mutual

/-- Without places there is no difference between an expression and the one that is moved. -/
lemma Expr.unplaced_moved (e : Expr) : (e.moved move).unplaced = e.unplaced := by
  cases e with
  | number | boolean | name => rfl
  | call f arguments span =>
    have harguments := Expr.unplacedAll_movedAll arguments
    simp only [unplaced, unplacedAll, moved] at harguments ⊢
    rw [harguments]
    rfl
  | unary op operand =>
    have hoperand := operand.unplaced_moved
    simp only [unplaced, moved] at hoperand ⊢
    rw [hoperand]
  | binary op left right =>
    have hleft := left.unplaced_moved
    have hright := right.unplaced_moved
    simp only [unplaced, moved] at hleft hright ⊢
    rw [hleft, hright]
  | choice condition yes no =>
    have hcondition := condition.unplaced_moved
    have hyes := yes.unplaced_moved
    have hno := no.unplaced_moved
    simp only [unplaced, moved] at hcondition hyes hno ⊢
    rw [hcondition, hyes, hno]

lemma Expr.unplacedAll_movedAll (es : List Expr) :
    Expr.unplacedAll (Expr.movedAll move es) = Expr.unplacedAll es := by
  cases es with
  | nil => rfl
  | cons e es =>
    have hfirst := e.unplaced_moved
    have hrest := Expr.unplacedAll_movedAll es
    simp only [unplaced, unplacedAll, movedAll] at hfirst hrest ⊢
    rw [hfirst, hrest]

end

/-- So it is with instructions. -/
lemma Instruction.unplaced_moved (i : Instruction) : (i.moved move).unplaced = i.unplaced := by
  cases i with
  | assign target op value span =>
    have hvalue := value.unplaced_moved move
    simp only [unplaced, Expr.unplaced, moved] at hvalue ⊢
    rw [hvalue]
    rfl
  | bare value span =>
    have hvalue := value.unplaced_moved move
    simp only [unplaced, Expr.unplaced, moved] at hvalue ⊢
    rw [hvalue]
    rfl

end

/-- What a condition text stands for, up to positions. -/
def conditionTree? (text : String) : Option Expr :=
  (parseCondition text).toOption.map Expr.unplaced

/-- What a statement text stands for, up to positions. -/
def statementTrees? (text : String) : Option (List Instruction) :=
  (parseStatement text).toOption.map (List.map Instruction.unplaced)

/-! ## Respelt lexemes -/

/-- The lexemes are the same up to their positions and the names by which functions are called. -/
inductive Respelt : List Lexeme → List Lexeme → Prop
  | nil : Respelt [] []
  | keep {token span span' ts ts'} (others : Respelt ts ts') :
      Respelt (⟨token, span⟩ :: ts) (⟨token, span'⟩ :: ts')
  | call {word word' function span span' opening opening' ts ts'}
      (found : Builtin.ofName? word = some function)
      (found' : Builtin.ofName? word' = some function) (others : Respelt ts ts') :
      Respelt (⟨.name word, span⟩ :: ⟨.symbol .openParen, opening⟩ :: ts)
        (⟨.name word', span'⟩ :: ⟨.symbol .openParen, opening'⟩ :: ts')

namespace Respelt

variable {ts ts' us us' vs vs' : List Lexeme}

lemma symm (h : Respelt ts ts') : Respelt ts' ts := by
  induction h with
  | nil => exact .nil
  | keep _ ih => exact .keep ih
  | call found found' _ ih => exact .call found' found ih

lemma append (h : Respelt ts ts') (h' : Respelt us us') : Respelt (ts ++ us) (ts' ++ us') := by
  induction h with
  | nil => exact h'
  | keep _ ih => exact .keep ih
  | call found found' _ ih => exact .call found found' ih

/-- Respelling does not take all lexemes away. -/
lemma ne_nil (h : Respelt ts ts') (hne : ts ≠ []) : ts' ≠ [] := by
  cases h with
  | nil => exact absurd rfl hne
  | keep => exact List.cons_ne_nil _ _
  | call => exact List.cons_ne_nil _ _

/-- Lexemes in other places. -/
lemma of_map_token_eq (h : ts.map Lexeme.token = ts'.map Lexeme.token) : Respelt ts ts' := by
  induction ts generalizing ts' with
  | nil =>
    rw [List.map_nil, eq_comm, List.map_eq_nil_iff] at h
    rw [h]
    exact .nil
  | cons t ts ih =>
    obtain ⟨t', ts', rfl, htoken, hrest⟩ := List.map_eq_cons_iff.mp h.symm
    obtain ⟨token, span⟩ := t
    obtain ⟨token', span'⟩ := t'
    subst htoken
    exact .keep (ih hrest.symm)

/-- A symbol in front stays, with its place changed. -/
lemma of_symbol_cons {symbol : Symbol} {span : Span}
    (h : Respelt (⟨.symbol symbol, span⟩ :: ts) us) :
    ∃ span' ts', us = ⟨.symbol symbol, span'⟩ :: ts' ∧ Respelt ts ts' := by
  cases h with
  | keep others => exact ⟨_, _, rfl, others⟩

/-- A lexeme alone stays, with its place changed. -/
lemma of_singleton {token : Token} {span : Span} (h : Respelt [⟨token, span⟩] us) :
    ∃ span', us = [⟨token, span'⟩] := by
  cases h with
  | keep others =>
    cases others
    exact ⟨_, rfl⟩

/-- Respelt lexemes can be taken apart at a symbol, unless it is the opening parenthesis of a
call. -/
lemma of_append_symbol {symbol : Symbol} {span : Span} (hsymbol : symbol ≠ .openParen)
    (h : Respelt (us ++ ⟨.symbol symbol, span⟩ :: vs) ts') :
    ∃ us' span' vs', ts' = us' ++ ⟨.symbol symbol, span'⟩ :: vs' ∧ Respelt us us' ∧
      Respelt vs vs' := by
  generalize hts : us ++ ⟨.symbol symbol, span⟩ :: vs = ts at h
  induction h generalizing us with
  | nil => exact absurd hts (by simp)
  | @keep token place place' ts ts' others ih =>
    cases us with
    | nil =>
      cases hts
      exact ⟨[], place', ts', rfl, .nil, others⟩
    | cons u us =>
      obtain ⟨rfl, rest⟩ := List.cons.inj hts
      obtain ⟨us', span', vs', rfl, hus, hvs⟩ := ih rest
      exact ⟨_ :: us', span', vs', rfl, .keep hus, hvs⟩
  | @call word word' function place place' opening opening' ts ts' found found' others ih =>
    -- The symbol is behind the opening parenthesis of the call, because it is another one.
    rcases us with _ | ⟨u, _ | ⟨u', us⟩⟩
    · cases hts
    · cases hts
      exact absurd rfl hsymbol
    · cases hts
      obtain ⟨us', span', vs', rfl, hus, hvs⟩ := ih rfl
      exact ⟨_ :: _ :: us', span', vs', rfl, .call found found' hus, hvs⟩

/-- A call is respelt as a call of the same function. -/
lemma of_call_cons {word : String} {function : Builtin} {span opening : Span}
    (found : Builtin.ofName? word = some function)
    (h : Respelt (⟨.name word, span⟩ :: ⟨.symbol .openParen, opening⟩ :: ts) us) :
    ∃ word' span' opening' ts', Builtin.ofName? word' = some function ∧
      us = ⟨.name word', span'⟩ :: ⟨.symbol .openParen, opening'⟩ :: ts' ∧ Respelt ts ts' := by
  cases h with
  | keep others =>
    obtain ⟨opening', ts', rfl, hts⟩ := others.of_symbol_cons
    exact ⟨_, _, opening', ts', found, rfl, hts⟩
  | @call _ word' function' _ _ _ _ _ _ found' found'' others =>
    rw [Option.some.inj (found.symm.trans found')]
    exact ⟨word', _, _, _, found'', rfl, others⟩

end Respelt

/-! ## Derivations -/

mutual

/-- Respelt lexemes derive the same expression, up to positions. -/
theorem Derivation.exists_respelt {n : Nonterminal} {ts ts' : List Lexeme} :
    (d : Derivation n ts) → Respelt ts ts' →
      ∃ d' : Derivation n ts', d'.tree.unplaced = d.tree.unplaced
  | .condition inner, h => by
    obtain ⟨d, hd⟩ := inner.exists_respelt h
    exact ⟨.condition d, hd⟩
  | .operand inner, h => by
    obtain ⟨d, hd⟩ := inner.exists_respelt h
    exact ⟨.operand d, hd⟩
  | .primary inner, h => by
    obtain ⟨d, hd⟩ := inner.exists_respelt h
    exact ⟨.primary d, hd⟩
  -- In each case the symbols of the rule stand in both lists, so both are split at them.
  | .choice test yes no split, h => by
    subst split
    obtain ⟨_, _, _, split, htest, h⟩ := h.of_append_symbol (by decide)
    obtain ⟨_, _, _, rfl, hyes, hno⟩ := h.of_append_symbol (by decide)
    obtain ⟨test', htest⟩ := test.exists_respelt htest
    obtain ⟨yes', hyes⟩ := yes.exists_respelt hyes
    obtain ⟨no', hno⟩ := no.exists_respelt hno
    refine ⟨.choice test' yes' no' split, ?_⟩
    simp only [Derivation.tree, Expr.unplaced, Expr.moved] at htest hyes hno ⊢
    rw [htest, hyes, hno]
  | .operation op member left right split, h => by
    subst split
    obtain ⟨_, _, _, split, hleft, hright⟩ := h.of_append_symbol op.symbol_ne_openParen
    obtain ⟨left', hleft⟩ := left.exists_respelt hleft
    obtain ⟨right', hright⟩ := right.exists_respelt hright
    refine ⟨.operation op member left' right' split, ?_⟩
    simp only [Derivation.tree, Expr.unplaced, Expr.moved] at hleft hright ⊢
    rw [hleft, hright]
  | .unary op inner split, h => by
    subst split
    obtain ⟨_, _, split, hinner⟩ := h.of_symbol_cons
    obtain ⟨d, hd⟩ := inner.exists_respelt hinner
    refine ⟨.unary op d split, ?_⟩
    simp only [Derivation.tree, Expr.unplaced, Expr.moved] at hd ⊢
    rw [hd]
  | .number value split, h => by
    subst split
    obtain ⟨_, split⟩ := h.of_singleton
    exact ⟨.number value split, rfl⟩
  | .boolean value split, h => by
    subst split
    obtain ⟨_, split⟩ := h.of_singleton
    exact ⟨.boolean value split, rfl⟩
  | .name word span split, h => by
    subst split
    obtain ⟨span', split⟩ := h.of_singleton
    exact ⟨.name word span' split, rfl⟩
  | .parentheses inner split, h => by
    subst split
    obtain ⟨_, _, split, h⟩ := h.of_symbol_cons
    obtain ⟨_, _, _, rfl, hinner, hnil⟩ := h.of_append_symbol (by decide)
    cases hnil
    obtain ⟨d, hd⟩ := inner.exists_respelt hinner
    exact ⟨.parentheses d split, hd⟩
  | .call word function span closing found arguments split, h => by
    subst split
    obtain ⟨word', span', _, _, found', split, h⟩ := h.of_call_cons found
    obtain ⟨_, closing', _, rfl, harguments, hnil⟩ := h.of_append_symbol (by decide)
    cases hnil
    obtain ⟨arguments', htrees⟩ := arguments.exists_respelt harguments
    refine ⟨.call word' function span' closing' found' arguments' split, ?_⟩
    simp only [Derivation.tree, Expr.unplaced, Expr.unplacedAll, Expr.moved] at htrees ⊢
    rw [htrees]
    rfl

theorem Arguments.exists_respelt {n : Nat} {ts ts' : List Lexeme} :
    (d : Arguments n ts) → Respelt ts ts' →
      ∃ d' : Arguments n ts', Expr.unplacedAll d'.trees = Expr.unplacedAll d.trees
  | .none, h => by
    cases h
    exact ⟨.none, rfl⟩
  | .one argument, h => by
    obtain ⟨d, hd⟩ := argument.exists_respelt h
    refine ⟨.one d, ?_⟩
    simp only [Arguments.trees, Expr.unplaced, Expr.unplacedAll, Expr.movedAll] at hd ⊢
    rw [hd]
  | .more argument others split, h => by
    subst split
    obtain ⟨_, _, _, split, hargument, hothers⟩ := h.of_append_symbol (by decide)
    obtain ⟨d, hd⟩ := argument.exists_respelt hargument
    obtain ⟨others', htrees⟩ := others.exists_respelt hothers
    refine ⟨.more d others' split, ?_⟩
    simp only [Arguments.trees, Expr.unplaced, Expr.unplacedAll, Expr.movedAll] at hd htrees ⊢
    rw [hd, htrees]

end

/-! ## Statements -/

/-- A respelt segment stands for the same instruction, up to positions. -/
lemma Instruction.OfSegment.exists_respelt {ts ts' : List Lexeme} {i : Instruction}
    (hi : OfSegment ts i) (h : Respelt ts ts') :
    ∃ i', OfSegment ts' i' ∧ i'.unplaced = i.unplaced := by
  cases hi with
  | @assign us target span op value split =>
    subst split
    have hop : op.symbol ≠ .openParen := by cases op <;> decide
    have h : Respelt ([⟨.name "x", target⟩] ++ ⟨.symbol op.symbol, span⟩ :: us) ts' := h
    obtain ⟨_, _, _, rfl, htarget, hvalue⟩ := h.of_append_symbol hop
    obtain ⟨_, rfl⟩ := htarget.of_singleton
    obtain ⟨d, hd⟩ := value.exists_respelt hvalue
    refine ⟨_, .assign op d rfl, ?_⟩
    simp only [unplaced, Expr.unplaced, Instruction.moved] at hd ⊢
    rw [hd]
    rfl
  | increment split =>
    subst split
    cases h with
    | keep others =>
      obtain ⟨_, rfl⟩ := others.of_singleton
      exact ⟨_, .increment rfl, rfl⟩
  | decrement split =>
    subst split
    cases h with
    | keep others =>
      obtain ⟨_, rfl⟩ := others.of_singleton
      exact ⟨_, .decrement rfl, rfl⟩
  | bare value =>
    obtain ⟨d, hd⟩ := value.exists_respelt h
    refine ⟨_, .bare d, ?_⟩
    simp only [unplaced, Expr.unplaced, Instruction.moved] at hd ⊢
    rw [hd]
    rfl

/-- Segments are respelt one by one. -/
lemma Respelt.segments {ts ts' : List Lexeme} (h : Respelt ts ts') :
    List.Forall₂ Respelt (segments ts) (segments ts') := by
  induction h with
  | nil => exact .cons .nil .nil
  | @keep token span span' ts ts' others ih =>
    rw [BlockLang.segments, BlockLang.segments]
    show List.Forall₂ _ (if token = _ then _ else _) (if token = _ then _ else _)
    generalize BlockLang.segments ts = segments at ih ⊢
    generalize BlockLang.segments ts' = segments' at ih ⊢
    split_ifs
    · exact .cons .nil ih
    · cases ih with
      | nil => exact .cons (.keep .nil) .nil
      | cons first rest => exact .cons (.keep first) rest
  | @call word word' function span span' opening opening' ts ts' found found' others ih =>
    simp only [BlockLang.segments, reduceCtorEq, if_false, Token.symbol.injEq]
    generalize BlockLang.segments ts = segments at ih ⊢
    generalize BlockLang.segments ts' = segments' at ih ⊢
    cases ih with
    | nil => exact .cons (.call found found' .nil) .nil
    | cons first rest => exact .cons (.call found found' first) rest

/-- No segment gets empty and none gets lexemes. -/
lemma Respelt.nonemptySegments {ts ts' : List Lexeme} (h : Respelt ts ts') :
    List.Forall₂ Respelt (nonemptySegments ts) (nonemptySegments ts') := by
  rw [nonemptySegments_eq, nonemptySegments_eq]
  refine List.rel_filter (fun us us' hus => ?_) h.segments
  simpa using ⟨fun hne => hus.ne_nil hne, fun hne => hus.symm.ne_nil hne⟩

/-- The instructions of respelt segments are the same up to places. -/
lemma exists_ofSegments_of_respelt {segments segments' : List (List Lexeme)}
    {is : List Instruction} (h : List.Forall₂ Respelt segments segments')
    (his : List.Forall₂ Instruction.OfSegment segments is) :
    ∃ is', List.Forall₂ Instruction.OfSegment segments' is' ∧
      is'.map Instruction.unplaced = is.map Instruction.unplaced := by
  induction h generalizing is with
  | nil =>
    cases his
    exact ⟨[], .nil, rfl⟩
  | cons hus _ ih =>
    cases his with
    | cons hi his =>
      obtain ⟨i', hi', heq⟩ := hi.exists_respelt hus
      obtain ⟨is', his', heqs⟩ := ih his
      exact ⟨i' :: is', .cons hi' his', by rw [List.map_cons, List.map_cons, heq, heqs]⟩

/-! ## Texts -/

/-- What is read from two texts: respelt lexemes, or none from either. -/
inductive ReadAlike : Except ParseError (List Lexeme) → Except ParseError (List Lexeme) → Prop
  | ok {ts ts'} (lexemes : Respelt ts ts') : ReadAlike (.ok ts) (.ok ts')
  | error {cause cause'} : ReadAlike (.error cause) (.error cause')

namespace ReadAlike

variable {r r' : Except ParseError (List Lexeme)} {ts ts' : List Lexeme}

lemma symm (h : ReadAlike r r') : ReadAlike r' r := by
  cases h with
  | ok lexemes => exact .ok lexemes.symm
  | error => exact .error

lemma append (hts : Respelt ts ts') (h : ReadAlike r r') :
    ReadAlike (r.map (ts ++ ·)) (r'.map (ts' ++ ·)) := by
  cases h with
  | ok lexemes => exact .ok (hts.append lexemes)
  | error => exact .error

/-- If lexemes are read from one text, respelt ones are read from the other. -/
lemma exists_of_ok (h : ReadAlike (.ok ts) r') : ∃ ts', r' = .ok ts' ∧ Respelt ts ts' := by
  cases h with
  | ok lexemes => exact ⟨_, rfl, lexemes⟩

end ReadAlike

/-- The same text in other places. -/
lemma readAlike_scan (start start' : Nat) (text : List Char) :
    ReadAlike (Lexeme.scan start text) (Lexeme.scan start' text) := by
  have hstart := Lexeme.scan_add 0 start text
  have hstart' := Lexeme.scan_add 0 start' text
  rw [Nat.zero_add] at hstart hstart'
  rw [hstart, hstart']
  cases Lexeme.scan 0 text with
  | error => exact .error
  | ok ts =>
    refine .ok (.of_map_token_eq ?_)
    rw [List.map_map, List.map_map]
    rfl

section

variable {text text' : String} {e : Expr} {is : List Instruction}

/-- The tree of a condition is what its lexemes derive, without places. -/
lemma conditionTree?_eq_some_iff : conditionTree? text = some e ↔
    ∃ ts, Lexeme.ofText text = .ok ts ∧ ∃ d : Derivation .condition ts, d.tree.unplaced = e := by
  constructor
  · intro h
    obtain ⟨e', he', rfl⟩ := Option.map_eq_some_iff.mp h
    obtain ⟨ts, hts, ⟨d, rfl⟩⟩ := exists_lexemes_of_parseCondition (eq_ok_of_toOption_eq_some he')
    exact ⟨ts, hts, d, rfl⟩
  · rintro ⟨ts, hts, d, rfl⟩
    rw [conditionTree?, (parseCondition_eq_ok_iff hts).mpr ⟨d, rfl⟩]
    rfl

/-- The trees of a statement are those of its segments, without places. -/
lemma statementTrees?_eq_some_iff : statementTrees? text = some is ↔
    ∃ ts, Lexeme.ofText text = .ok ts ∧ nonemptySegments ts ≠ [] ∧
      ∃ js, List.Forall₂ Instruction.OfSegment (nonemptySegments ts) js ∧
        js.map Instruction.unplaced = is := by
  constructor
  · intro h
    obtain ⟨js, hjs, rfl⟩ := Option.map_eq_some_iff.mp h
    have hjs := eq_ok_of_toOption_eq_some hjs
    obtain ⟨ts, hts, -⟩ := exists_lexemes_of_parseStatement hjs
    obtain ⟨hne, hall⟩ := (parseStatement_eq_ok_iff hts).mp hjs
    exact ⟨ts, hts, hne, js, hall, rfl⟩
  · rintro ⟨ts, hts, hne, js, hall, rfl⟩
    rw [statementTrees?, (parseStatement_eq_ok_iff hts).mpr ⟨hne, hall⟩]
    rfl

/-- If respelt lexemes are read from two texts and one is a condition, the other is one with the
same tree. -/
lemma ReadAlike.conditionTree?_of_eq_some
    (h : ReadAlike (Lexeme.ofText text) (Lexeme.ofText text'))
    (he : conditionTree? text = some e) : conditionTree? text' = some e := by
  obtain ⟨ts, hts, d, rfl⟩ := conditionTree?_eq_some_iff.mp he
  rw [hts] at h
  obtain ⟨ts', hts', hrespelt⟩ := h.exists_of_ok
  obtain ⟨d', hd'⟩ := d.exists_respelt hrespelt
  exact conditionTree?_eq_some_iff.mpr ⟨ts', hts', d', hd'⟩

/-- If respelt lexemes are read from two texts and one is a statement, the other is one with the
same trees. -/
lemma ReadAlike.statementTrees?_of_eq_some
    (h : ReadAlike (Lexeme.ofText text) (Lexeme.ofText text'))
    (his : statementTrees? text = some is) : statementTrees? text' = some is := by
  obtain ⟨ts, hts, hne, js, hall, rfl⟩ := statementTrees?_eq_some_iff.mp his
  rw [hts] at h
  obtain ⟨ts', hts', hrespelt⟩ := h.exists_of_ok
  obtain ⟨js', hall', heq⟩ := exists_ofSegments_of_respelt hrespelt.nonemptySegments hall
  refine statementTrees?_eq_some_iff.mpr ⟨ts', hts', fun hnil => hne ?_, js', hall', heq⟩
  have hlen := hrespelt.nonemptySegments.length_eq
  rw [hnil] at hlen
  exact List.length_eq_zero_iff.mp hlen

/-- Texts from which respelt lexemes are read stand for the same trees, or for none. -/
theorem ReadAlike.trees_eq (h : ReadAlike (Lexeme.ofText text) (Lexeme.ofText text')) :
    conditionTree? text = conditionTree? text' ∧ statementTrees? text = statementTrees? text' := by
  constructor
  · exact Option.ext fun e => ⟨h.conditionTree?_of_eq_some, h.symm.conditionTree?_of_eq_some⟩
  · exact Option.ext fun is => ⟨h.statementTrees?_of_eq_some, h.symm.statementTrees?_of_eq_some⟩

end

end BlockLang
