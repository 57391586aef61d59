import BlockLang.Proofs.Expr.Complete

/-!
# What is read derives

The lexemes that a reader takes derive from the grammar, and the value it returns is the tree of a
derivation.
-/

namespace BlockLang

/-! ## From a nonterminal to the looser ones -/

/-- The nonterminal that this one stands for when there is no operator between. -/
def Nonterminal.tighter : Nonterminal → Nonterminal
  | condition => .layer .or
  | layer l => l.operand
  | unary | primary => .primary

/-- No two nonterminals bind with the same power. -/
lemma Nonterminal.eq_of_power_eq {n m : Nonterminal} (h : n.power = m.power) : n = m := by
  rcases n with _ | (_ | _ | _ | _ | _ | _) | _ | _ <;>
    rcases m with _ | (_ | _ | _ | _ | _ | _) | _ | _ <;>
      first | rfl | exact absurd h (by decide)

/-- The next tighter nonterminal is the next in power. -/
lemma Nonterminal.power_lt_tighter {n m : Nonterminal} (h : n.power < m.power) :
    n.power < n.tighter.power ∧ n.tighter.power ≤ m.power := by
  rcases n with _ | (_ | _ | _ | _ | _ | _) | _ | _ <;>
    rcases m with _ | (_ | _ | _ | _ | _ | _) | _ | _ <;>
      first | decide | exact absurd h (by decide)

/-- Some derivation of the lexemes has the tree `e`. -/
def Derives (n : Nonterminal) (ts : List Lexeme) (e : Expr) : Prop :=
  ∃ d : Derivation n ts, d.tree = e

section

variable {us vs ws : List Lexeme} {t c : Lexeme}

/-- An operation is derived from its two sides and its symbol. -/
lemma Derives.operation (op : BinaryOp) {left right : Expr}
    (hleft : Derives (.layer op.layer) us left) (ht : t.token = .symbol op.symbol)
    (hright : Derives op.layer.operand vs right) :
    Derives (.layer op.layer) (us ++ t :: vs) (.binary op left right) := by
  obtain ⟨token, span⟩ := t
  obtain ⟨left, rfl⟩ := hleft
  obtain ⟨right, rfl⟩ := hright
  subst ht
  exact ⟨.operation op rfl left right rfl, rfl⟩

/-- A choice is derived from its three parts and its symbols. -/
lemma Derives.choice {test yes no : Expr} (htest : Derives (.layer .or) us test)
    (ht : t.token = .symbol .question) (hyes : Derives .condition vs yes)
    (hc : c.token = .symbol .colon) (hno : Derives .condition ws no) :
    Derives .condition (us ++ t :: (vs ++ c :: ws)) (.choice test yes no) := by
  obtain ⟨token, span⟩ := t
  obtain ⟨colon, cspan⟩ := c
  obtain ⟨test, rfl⟩ := htest
  obtain ⟨yes, rfl⟩ := hyes
  obtain ⟨no, rfl⟩ := hno
  subst ht hc
  exact ⟨.choice test yes no rfl, rfl⟩

end

/-- What is derived as the next tighter nonterminal is derived. -/
lemma Derives.of_tighter {n : Nonterminal} {ts : List Lexeme} {e : Expr}
    (h : Derives n.tighter ts e) : Derives n ts e := by
  obtain ⟨d, rfl⟩ := h
  cases n with
  | condition => exact ⟨.condition d, rfl⟩
  | layer => exact ⟨.operand d, rfl⟩
  | unary => exact ⟨.primary d, rfl⟩
  | primary => exact ⟨d, rfl⟩

/-- What is derived as a tighter nonterminal is derived. -/
lemma Derives.of_power_le {n m : Nonterminal} {ts : List Lexeme} {e : Expr} (h : Derives m ts e)
    (hnm : n.power ≤ m.power) : Derives n ts e := by
  rcases hnm.eq_or_lt with heq | hlt
  · rw [Nonterminal.eq_of_power_eq heq]
    exact h
  · have ⟨hn, hm⟩ := Nonterminal.power_lt_tighter hlt
    exact (h.of_power_le hm).of_tighter
termination_by m.power - n.power

/-- The nonterminal that the left side of an operator derives from. -/
def Infix.leftSide : Infix → Nonterminal
  | binary op => .layer op.layer
  | choice => .layer .or

lemma Token.eq_of_infix?_binary {token : Token} {op : BinaryOp}
    (h : token.infix? = some (.binary op)) : token = .symbol op.symbol := by
  rcases token with _ | _ | _ | s <;> try cases h
  cases s <;> cases h <;> rfl

lemma Token.eq_of_infix?_choice {token : Token} (h : token.infix? = some .choice) :
    token = .symbol .question := by
  rcases token with _ | _ | _ | s <;> try cases h
  cases s <;> cases h
  rfl

/-- Operators have even powers, and there is one in between for what stands on their right. -/
lemma Infix.power_mod_two (op : Infix) : op.power % 2 = 0 := by
  rcases op with op | _
  · cases op <;> rfl
  · rfl

lemma Infix.choicePower_le (op : Infix) : choicePower ≤ op.power := by
  rcases op with op | _
  · cases op <;> decide
  · exact le_rfl

/-- What a binary operator makes can stand on the left of any operator that binds no tighter. -/
lemma Infix.leftSide_power_le {op : BinaryOp} {next : Infix} (h : next.power ≤ op.power) :
    next.leftSide.power ≤ op.layer.power := by
  rcases next with next | _
  · rw [op.power_layer]
    exact next.power_layer.trans_le h
  · cases op <;> decide

/-- An operand without operators in front of it can be on the left side of any operator. -/
lemma Infix.leftSide_power_le_unary (op : Infix) : op.leftSide.power ≤ unaryPower := by
  rcases op with op | _
  · cases op <;> decide
  · decide

namespace Expr

variable {stop least : Nat} {n : Nonterminal} {ts us rest : List Lexeme} {e left : Expr}

/-- What derives from `n` can have every operator of at least the power `least` outside
parentheses. -/
def Covers (n : Nonterminal) (least : Nat) : Prop :=
  n.power ≤ unaryPower ∧ ∀ op : Infix, least ≤ op.power → n.power ≤ op.power

lemma covers_condition : Covers .condition least :=
  ⟨by decide, fun op _ => op.choicePower_le⟩

lemma covers_unary : Covers .unary unaryPower :=
  ⟨le_rfl, fun _ => id⟩

lemma covers_operand (op : BinaryOp) : Covers op.layer.operand (op.power + 1) := by
  refine ⟨by cases op <;> decide, fun next h => ?_⟩
  rw [Layer.power_operand, op.power_layer]
  have := (Infix.binary op).power_mod_two
  have := next.power_mod_two
  simp only [Infix.power] at *
  omega

/-! ## One reader after another -/

/-- Whatever is read from `ts` derives from the grammar, and ends where it has to. -/
def Sound (stop : Nat) (ts : List Lexeme) : Prop :=
  ∀ ⦃n : Nonterminal⦄ ⦃least : Nat⦄ ⦃e : Expr⦄ ⦃rest : List Lexeme⦄, Covers n least →
    Reads (read stop least ts) e rest →
    ∃ us, ts = us ++ rest ∧ Stops least rest ∧ Derives n us e

/-- The invariant of reading operators: what has been read so far derives from `n`, and it can be
the left side of the next operator if that is taken. -/
structure Extensible (n : Nonterminal) (least : Nat) (us : List Lexeme) (left : Expr)
    (ts : List Lexeme) : Prop where
  derives : Derives n us left
  leftSide : ∀ t ∈ ts.head?, ∀ op ∈ t.token.infix?, least ≤ op.power → Derives op.leftSide us left

/-- An operand can be the left side of every operator. -/
lemma extensible_of_unary (hn : Covers n least) (h : Derives .unary us left) :
    Extensible n least us left ts where
  derives := h.of_power_le hn.1
  leftSide _ _ op _ _ := h.of_power_le op.leftSide_power_le_unary

/-- A right side ends before an operator that can take the whole as its left side. -/
lemma extensible_binary {op : BinaryOp} {t : Lexeme} {vs : List Lexeme} {right : Expr}
    (hn : Covers n least) (hl : least ≤ op.power) (ht : t.token.infix? = some (.binary op))
    (hleft : Derives (.layer op.layer) us left) (hright : Derives op.layer.operand vs right)
    (hs : Stops (op.power + 1) ts) :
    Extensible n least (us ++ t :: vs) (.binary op left right) ts := by
  have hwhole := hleft.operation op (Token.eq_of_infix?_binary ht) hright
  constructor
  · have hpower : n.power ≤ op.layer.power := (hn.2 (.binary op) hl).trans_eq op.power_layer.symm
    exact hwhole.of_power_le hpower
  · intro t' ht' next hnext _
    have hlt := hs t' ht' next hnext
    exact hwhole.of_power_le (Infix.leftSide_power_le (Nat.lt_succ_iff.mp hlt))

/-- No operator is loose enough to follow a choice. -/
lemma extensible_choice {t c : Lexeme} {vs ws : List Lexeme} {yes no : Expr}
    (hn : Covers n least) (hl : least ≤ choicePower) (ht : t.token.infix? = some .choice)
    (hc : c.token = .symbol .colon) (htest : Derives (.layer .or) us left)
    (hyes : Derives .condition vs yes) (hno : Derives .condition ws no)
    (hs : Stops choicePower ts) :
    Extensible n least (us ++ t :: (vs ++ c :: ws)) (.choice left yes no) ts := by
  have hwhole := htest.choice (Token.eq_of_infix?_choice ht) hyes hc hno
  constructor
  · have hpower : n.power ≤ choicePower := hn.2 .choice hl
    exact hwhole.of_power_le hpower
  · intro t' ht' next hnext _
    exact absurd (hs t' ht' next hnext) (Nat.not_lt.mpr next.choicePower_le)

/-- If what stands on the left is derived, so is what operators make of it. -/
lemma derives_of_readInfix (hn : Covers n least)
    (hsound : ∀ vs : List Lexeme, vs.length < ts.length → Sound stop vs)
    (hleft : Extensible n least us left ts) (h : Reads (readInfix stop least left ts) e rest) :
    ∃ vs, ts = vs ++ rest ∧ Stops least rest ∧ Derives n (us ++ vs) e := by
  induction hlen : ts.length using Nat.strong_induction_on generalizing ts us left with
  | _ length ih =>
    subst hlen
    by_cases hs : Stops least ts
    · -- No operator is taken.
      obtain ⟨rfl, rfl⟩ := (reads_readInfix_of_stops hs).mp h
      exact ⟨[], rfl, hs, by simpa using hleft.derives⟩
    simp only [Stops, not_forall, not_lt] at hs
    obtain ⟨t, ht, op, hop, hl⟩ := hs
    obtain ⟨ts, rfl⟩ := List.head?_eq_some_iff.mp ht
    have hside := hleft.leftSide t rfl op hop hl
    -- One operator and its right side are taken; what follows is shorter.
    rcases op with op | _
    · obtain ⟨right, ws, hr, hi⟩ := (reads_readInfix_binary hop hl).mp h
      obtain ⟨vs, rfl, hs, hright⟩ := hsound ts (by simp) (covers_operand op) hr
      have hlen : ws.length < (t :: (vs ++ ws)).length := by
        simp only [List.length_cons, List.length_append]
        omega
      obtain ⟨vs', rfl, hs', hd⟩ := ih ws.length hlen (fun vs' h => hsound vs' (h.trans hlen))
        (extensible_binary hn hl hop hside hright hs) hi rfl
      exact ⟨t :: vs ++ vs', by simp, hs', by simpa using hd⟩
    · obtain ⟨yes, _, hy, span, ws, rfl, no, ws', hr, hi⟩ :=
        (reads_readInfix_choice hop hl).mp h
      obtain ⟨vs, rfl, _, hyes⟩ := hsound ts (by simp) covers_condition hy
      have hlen : ws.length < (t :: (vs ++ ⟨.symbol .colon, span⟩ :: ws)).length := by
        simp only [List.length_cons, List.length_append]
        omega
      obtain ⟨ws, rfl, hs, hno⟩ := hsound ws hlen covers_condition hr
      have hlen' : ws'.length ≤ (ws ++ ws').length := by
        rw [List.length_append]
        exact Nat.le_add_left _ _
      have hlen := hlen'.trans_lt hlen
      obtain ⟨vs', rfl, hs', hd⟩ := ih ws'.length hlen (fun vs' h => hsound vs' (h.trans hlen))
        (extensible_choice (c := ⟨.symbol .colon, span⟩) hn hl hop rfl hside hyes hno hs) hi rfl
      refine ⟨t :: (vs ++ ⟨.symbol .colon, span⟩ :: ws) ++ vs', by simp, hs', ?_⟩
      simpa using hd

/-- The lexemes derive the expressions `es` with commas between them. -/
def DeriveAll (ts : List Lexeme) (es : List Expr) : Prop :=
  ∃ arguments : Arguments es.length ts, arguments.trees = es

/-- Arguments are derived from the first one, a comma, and those behind it. -/
lemma deriveAll_cons {vs : List Lexeme} {t : Lexeme} {es : List Expr} (h : Derives .condition us e)
    (ht : t.token = .symbol .comma) (hes : es ≠ []) (hs : DeriveAll vs es) :
    DeriveAll (us ++ t :: vs) (e :: es) := by
  obtain ⟨token, span⟩ := t
  obtain ⟨argument, rfl⟩ := h
  obtain ⟨others, ho⟩ := hs
  subst ht
  cases es with
  | nil => exact absurd rfl hes
  | cons => exact ⟨.more argument others rfl, congrArg _ ho⟩

/-- Expressions that are read with commas between them are derived. -/
lemma derives_of_readSome {es : List Expr}
    (hsound : ∀ vs : List Lexeme, vs.length ≤ ts.length → Sound stop vs)
    (h : Reads (readSome stop ts) es rest) :
    es ≠ [] ∧ ∃ us, ts = us ++ rest ∧ DeriveAll us es := by
  induction hlen : ts.length using Nat.strong_induction_on generalizing ts es with
  | _ length ih =>
    subst hlen
    obtain ⟨first, vs, hf, h⟩ := reads_readSome.mp h
    obtain ⟨us, rfl, _, d, rfl⟩ := hsound ts le_rfl covers_condition hf
    split at h
    case isTrue hc =>
      obtain ⟨more, hm, rfl⟩ := h
      obtain ⟨span, ws, rfl⟩ := startsWith_eq_true.mp hc
      have hlen : ws.length < (us ++ ⟨.symbol .comma, span⟩ :: ws).length := by
        simp only [List.length_append, List.length_cons]
        omega
      obtain ⟨hne, vs, rfl, hd⟩ := ih ws.length hlen (fun vs h => hsound vs (h.trans hlen.le)) hm
        rfl
      refine ⟨List.cons_ne_nil _ _, us ++ ⟨.symbol .comma, span⟩ :: vs, by simp, ?_⟩
      exact deriveAll_cons ⟨d, rfl⟩ rfl hne hd
    case isFalse =>
      obtain ⟨rfl, rfl⟩ := h
      exact ⟨List.cons_ne_nil _ _, us, rfl, .one d, rfl⟩

/-- Arguments that are read are derived. -/
lemma derives_of_readArguments {es : List Expr}
    (hsound : ∀ vs : List Lexeme, vs.length ≤ ts.length → Sound stop vs)
    (h : Reads (readArguments stop ts) es rest) : ∃ us, ts = us ++ rest ∧ DeriveAll us es := by
  rw [reads_readArguments] at h
  split at h
  · obtain ⟨rfl, rfl⟩ := h
    exact ⟨[], rfl, .none, rfl⟩
  · exact (derives_of_readSome hsound h).2

/-- A call is derived from its name, its parentheses and its arguments. -/
lemma derives_call {word : String} {span closing : Span} {function : Builtin} {es : List Expr}
    (opening : Span) (hf : Builtin.ofName? word = some function) (hs : DeriveAll us es)
    (hes : es.length = function.arity) :
    Derives .unary
      (⟨.name word, span⟩ :: ⟨.symbol .openParen, opening⟩ ::
        (us ++ [⟨.symbol .closeParen, closing⟩]))
      (.call function es ⟨span.start, closing.stop⟩) := by
  rw [DeriveAll, hes] at hs
  obtain ⟨arguments, rfl⟩ := hs
  exact ⟨.primary (.call word function span closing hf arguments rfl), rfl⟩

/-- An operand that is read is derived. -/
lemma derives_of_readOperand (hsound : ∀ vs : List Lexeme, vs.length < ts.length → Sound stop vs)
    (h : Reads (readOperand stop ts) e rest) : ∃ us, ts = us ++ rest ∧ Derives .unary us e := by
  rcases ts with _ | ⟨⟨token, span⟩, ts⟩
  · exact absurd h not_reads_readOperand_nil
  cases token with
  | number value =>
    obtain ⟨rfl, rfl⟩ := reads_readOperand_number.mp h
    exact ⟨[_], rfl, .primary (.number value rfl), rfl⟩
  | truth value =>
    obtain ⟨rfl, rfl⟩ := reads_readOperand_truth.mp h
    exact ⟨[_], rfl, .primary (.boolean value rfl), rfl⟩
  | name word =>
    -- A name with a parenthesis behind it is a call.
    by_cases hp : startsWith .openParen ts
    · obtain ⟨opening, ts, rfl⟩ := startsWith_eq_true.mp hp
      obtain ⟨function, hf, es, _, ha, closing, rfl, hes, rfl⟩ := reads_readOperand_call.mp h
      have hinside (vs : List Lexeme) (h : vs.length ≤ ts.length) : Sound stop vs :=
        hsound vs (by simp only [List.length_cons]; omega)
      obtain ⟨us, rfl, hs⟩ := derives_of_readArguments hinside ha
      refine ⟨_, ?_, derives_call opening hf hs hes⟩
      simp
    · obtain ⟨rfl, rfl⟩ := (reads_readOperand_name (by simpa using hp)).mp h
      exact ⟨[_], rfl, .primary (.name word span rfl), rfl⟩
  | symbol s =>
    by_cases hu : ∃ op : UnaryOp, s = op.symbol
    · obtain ⟨op, rfl⟩ := hu
      obtain ⟨operand, hr, rfl⟩ := reads_readOperand_unary.mp h
      obtain ⟨us, rfl, _, d, rfl⟩ := hsound ts (by simp) covers_unary hr
      exact ⟨_ :: us, rfl, .unary op d rfl, rfl⟩
    by_cases hp : s = .openParen
    · subst hp
      obtain ⟨_, hr, closing, rfl⟩ := reads_readOperand_openParen.mp h
      obtain ⟨us, rfl, _, d, rfl⟩ := hsound ts (by simp) covers_condition hr
      refine ⟨⟨.symbol .openParen, span⟩ :: (us ++ [⟨.symbol .closeParen, closing⟩]), ?_,
        .primary (.parentheses d rfl), rfl⟩
      simp
    · -- No other symbol begins an operand.
      have hm : s ≠ .minus := fun hs => hu ⟨.negate, hs⟩
      have hn : s ≠ .not := fun hs => hu ⟨.not, hs⟩
      exact absurd h (not_reads_readOperand_symbol hm hn hp)

/-- Every reading is sound. -/
theorem sound (stop : Nat) (ts : List Lexeme) : Sound stop ts := by
  induction hlen : ts.length using Nat.strong_induction_on generalizing ts with
  | _ length ih =>
    subst hlen
    intro n least e rest hn h
    have hsound (vs : List Lexeme) (hv : vs.length < ts.length) : Sound stop vs :=
      ih vs.length hv vs rfl
    obtain ⟨left, us, ho, hi⟩ := reads_read.mp h
    obtain ⟨us', rfl, hd⟩ := derives_of_readOperand hsound ho
    have hus : us.length < (us' ++ us).length := ho.1
    obtain ⟨vs, rfl, hs, hw⟩ := derives_of_readInfix hn (fun vs h => hsound vs (h.trans hus))
      (extensible_of_unary hn hd) hi
    exact ⟨us' ++ vs, (List.append_assoc _ _ _).symm, hs, hw⟩

/-- What is read up to the end of the lexemes is the tree of a derivation. -/
theorem reads_read_iff_derives (stop : Nat) :
    Reads (read stop 0 ts) e [] ↔ Derives .condition ts e := by
  constructor
  · intro h
    obtain ⟨us, rfl, _, hd⟩ := sound stop ts covers_condition h
    rw [List.append_nil]
    exact hd
  · rintro ⟨d, rfl⟩
    have h : Reads (read stop 0 (ts ++ [])) d.tree [] :=
      d.isRead.reads (Nat.zero_le _) (stops_nil 0) (stops_nil choicePower) rfl
    rw [List.append_nil] at h
    exact h

end Expr

end BlockLang
