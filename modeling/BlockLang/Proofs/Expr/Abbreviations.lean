import BlockLang.Proofs.Expr.Sequences

/-!
# Abbreviations

An assignment with an arithmetic operator in it is short for one that names `x` again on the right.
Main statement: both can be written with every expression and come to the same value, or fail at the
same name in the expression.
-/

namespace BlockLang

open Lexeme

/-! ## Texts one behind the other -/

section

variable {a b : String} {us vs : List Lexeme} {start : Nat}

lemma Lexeme.map_moved_moved (ts : List Lexeme) (m n : Nat) :
    (ts.map (Lexeme.moved (· + m))).map (Lexeme.moved (· + n)) =
      ts.map (Lexeme.moved (· + (m + n))) := by
  rw [List.map_map]
  refine List.map_congr_left fun t _ => ?_
  simp [Lexeme.moved, Span.moved, Nat.add_assoc]

/-- If no lexeme goes on with the first character of the second text, the lexemes are those of the
one text and those of the other. -/
lemma ofText_append {c : Char} {chars : List Char} (hchars : b.toList = c :: chars)
    (hc : goesOn c = false) (ha : Lexeme.ofText a = .ok us) (hb : Lexeme.ofText b = .ok vs) :
    Lexeme.ofText (a ++ b) = .ok (us ++ vs.map (Lexeme.moved (· + a.utf8ByteSize))) := by
  have hus : scan 0 a.toList = .ok us := ha
  have hvs : scan 0 b.toList = .ok vs := hb
  have hplace : scan (0 + a.utf8ByteSize) b.toList =
      .ok (vs.map (Lexeme.moved (· + a.utf8ByteSize))) := by
    rw [scan_add, hvs]
    rfl
  rw [hchars] at hplace
  rw [Lexeme.ofText, String.toList_append, hchars, scan_append_cons hc, hus, width_toList]
  show (do let us' ← scan (0 + a.utf8ByteSize) (c :: chars); return us ++ us') = _
  rw [hplace]
  rfl

lemma toList_blank_append (text : String) : (" " ++ text).toList = ' ' :: text.toList := by
  rw [String.toList_append]
  rfl

/-- Lexemes after a blank. -/
lemma ofText_blank (h : Lexeme.ofText a = .ok us) :
    Lexeme.ofText (" " ++ a) = .ok (us.map (Lexeme.moved (· + 1))) := by
  have hus : scan 0 a.toList = .ok us := h
  rw [Lexeme.ofText, toList_blank_append, scan_blank (by decide)]
  show scan (0 + 1) a.toList = _
  rw [scan_add, hus]
  rfl

/-- A parenthesis in front moves all lexemes on by its width. -/
lemma ofText_openParen (h : Lexeme.ofText a = .ok us) :
    Lexeme.ofText ("(" ++ a) =
      .ok (⟨.symbol .openParen, ⟨0, 1⟩⟩ :: us.map (Lexeme.moved (· + 1))) := by
  have hus : scan 0 a.toList = .ok us := h
  rw [Lexeme.ofText, String.toList_append]
  show scan 0 ('(' :: a.toList) = _
  rw [scan_ok (by decide) rfl]
  show (scan (0 + 1) a.toList).map _ = _
  rw [scan_add, hus]
  rfl

end

/-! ## Statements of one segment -/

section

variable {text : String} {ts : List Lexeme}

/-- Lexemes without a semicolon make up one segment. -/
lemma nonemptySegments_eq_singleton (hne : ts ≠ []) (h : ∀ t ∈ ts, t.token ≠ .symbol .semicolon) :
    nonemptySegments ts = [ts] := by
  have hone : segments ts = [ts] := by
    clear hne
    induction ts with
    | nil => rfl
    | cons t ts ih =>
      rw [List.forall_mem_cons] at h
      rw [segments, if_neg h.1, ih h.2]
  rw [nonemptySegments_eq, hone, List.filter_cons_of_pos (by simpa using hne), List.filter_nil]

/-- There is no semicolon in an expression. -/
lemma Derivation.ne_semicolon {n : Nonterminal} (d : Derivation n ts) :
    ∀ t ∈ ts, t.token ≠ .symbol .semicolon := by
  intro t ht hsemicolon
  have h := d.not_statementOnly t ht
  rw [hsemicolon] at h
  cases h

/-- A text without a semicolon stands for one instruction. -/
lemma parseStatement_of_ofSegment {i : Instruction} (hread : Lexeme.ofText text = .ok ts)
    (hne : ts ≠ []) (hsemicolon : ∀ t ∈ ts, t.token ≠ .symbol .semicolon)
    (h : Instruction.OfSegment ts i) : parseStatement text = .ok [i] := by
  rw [parseStatement_eq_ok_iff hread, nonemptySegments_eq_singleton hne hsemicolon]
  exact ⟨List.cons_ne_nil _ _, .cons h .nil⟩

/-- A text whose lexemes are those of one assignment stands for it. -/
lemma parseStatement_assignment {lexemes : List Lexeme} {target span : Span} {value : Expr}
    (op : AssignOp) (hread : Lexeme.ofText text = .ok lexemes)
    (split : lexemes = ⟨.name "x", target⟩ :: ⟨.symbol op.symbol, span⟩ :: ts)
    (hvalue : Derives .condition ts value) :
    parseStatement text = .ok [.assign "x" op value (extent lexemes)] := by
  obtain ⟨d, rfl⟩ := hvalue
  have hop : Token.symbol op.symbol ≠ .symbol .semicolon := by cases op <;> decide
  refine parseStatement_of_ofSegment hread (by simp [split]) ?_ (.assign op d split)
  rw [split, List.forall_mem_cons, List.forall_mem_cons]
  exact ⟨Token.noConfusion, hop, d.ne_semicolon⟩

/-- An assignment does what its operator says. -/
lemma exec_assignment {op : AssignOp} {value : Expr} {span : Span}
    (h : parseStatement text = .ok [.assign "x" op value span]) (x : Float) (scopes : Scopes) :
    StatementCode.exec (.ofText text) x scopes =
      ((value.eval x scopes).map fun v => op.apply x v.toNumber).mapError .unbound := by
  rw [exec_of_parseStatement h, execAll, List.foldlM_cons, Instruction.exec]
  cases value.eval x scopes <;> rfl

end

/-! ## The two forms -/

/-- The operators that an assignment can take in. -/
inductive Arithmetic where
  | add | subtract | multiply | divide | modulo

namespace Arithmetic

def sign : Arithmetic → String
  | add => "+"
  | subtract => "-"
  | multiply => "*"
  | divide => "/"
  | modulo => "%"

def assignOp : Arithmetic → AssignOp
  | add => .add
  | subtract => .subtract
  | multiply => .multiply
  | divide => .divide
  | modulo => .modulo

def binaryOp : Arithmetic → BinaryOp
  | add => .add
  | subtract => .subtract
  | multiply => .multiply
  | divide => .divide
  | modulo => .modulo

def short (op : Arithmetic) (text : String) : String := "x " ++ op.sign ++ "= " ++ text

def long (op : Arithmetic) (text : String) : String := "x = x " ++ op.sign ++ " (" ++ text ++ ")"

variable {text : String} {ts : List Lexeme} {e : Expr}

/-- The lexemes of the short form are those of the assignment, with the expression from byte 5
on. -/
lemma ofText_short (op : Arithmetic) (h : Lexeme.ofText text = .ok ts) :
    Lexeme.ofText (op.short text) = .ok (⟨.name "x", ⟨0, 1⟩⟩ ::
      ⟨.symbol op.assignOp.symbol, ⟨2, 4⟩⟩ :: ts.map (Lexeme.moved (· + 5))) := by
  have hhead : Lexeme.ofText ("x " ++ op.sign ++ "=") =
      .ok [⟨.name "x", ⟨0, 1⟩⟩, ⟨.symbol op.assignOp.symbol, ⟨2, 4⟩⟩] :=
    eq_ok_of_toOption_eq_some (by cases op <;> decide +kernel)
  have hsize : ("x " ++ op.sign ++ "=").utf8ByteSize = 4 := by cases op <;> rfl
  have htext : op.short text = ("x " ++ op.sign ++ "=") ++ (" " ++ text) := by
    rw [short, ← String.append_assoc]
    cases op <;> rfl
  rw [htext, ofText_append (toList_blank_append text) (by decide) hhead (ofText_blank h), hsize,
    map_moved_moved]
  rfl

/-- The lexemes of the long form have the expression between parentheses, from byte 9 on. -/
lemma ofText_long (op : Arithmetic) (h : Lexeme.ofText text = .ok ts) :
    ∃ closing, Lexeme.ofText (op.long text) = .ok (⟨.name "x", ⟨0, 1⟩⟩ ::
      ⟨.symbol .assign, ⟨2, 3⟩⟩ :: ([⟨.name "x", ⟨4, 5⟩⟩] ++
        ⟨.symbol op.binaryOp.symbol, ⟨6, 7⟩⟩ :: ⟨.symbol .openParen, ⟨8, 9⟩⟩ ::
          (ts.map (Lexeme.moved (· + 9)) ++ [⟨.symbol .closeParen, closing⟩]))) := by
  have hhead : Lexeme.ofText ("x = x " ++ op.sign) =
      .ok [⟨.name "x", ⟨0, 1⟩⟩, ⟨.symbol .assign, ⟨2, 3⟩⟩, ⟨.name "x", ⟨4, 5⟩⟩,
        ⟨.symbol op.binaryOp.symbol, ⟨6, 7⟩⟩] :=
    eq_ok_of_toOption_eq_some (by cases op <;> decide +kernel)
  have hsize : ("x = x " ++ op.sign).utf8ByteSize = 7 := by cases op <;> rfl
  have hclose : Lexeme.ofText ")" = .ok [⟨.symbol .closeParen, ⟨0, 1⟩⟩] :=
    eq_ok_of_toOption_eq_some (by decide +kernel)
  have hparen : ")".toList = [')'] := rfl
  have hinner := ofText_blank (ofText_openParen (ofText_append hparen (by decide) h hclose))
  have htext : op.long text = ("x = x " ++ op.sign) ++ (" " ++ ("(" ++ (text ++ ")"))) := by
    simp only [long, String.append_assoc]
    rfl
  refine ⟨⟨0 + (text.utf8ByteSize + 9), 1 + (text.utf8ByteSize + 9)⟩, ?_⟩
  rw [htext, ofText_append (toList_blank_append _) (by decide) hhead hinner, hsize]
  simp only [List.map_cons, List.map_append, map_moved_moved, List.map_nil]
  rfl

/-- To set `x` to the value of an operation on `x` is to assign with the operator. -/
lemma exec_set_operation {lexemes us : List Lexeme} {target span left sign : Span}
    (op : Arithmetic) (hread : Lexeme.ofText text = .ok lexemes)
    (split : lexemes = ⟨.name "x", target⟩ :: ⟨.symbol .assign, span⟩ ::
      ([⟨.name "x", left⟩] ++ ⟨.symbol op.binaryOp.symbol, sign⟩ :: us))
    (hright : Derives .primary us e) :
    (parseStatement text).isOk ∧ ∀ x scopes, StatementCode.exec (.ofText text) x scopes =
      ((e.eval x scopes).map fun v => op.assignOp.apply x v.toNumber).mapError .unbound := by
  have hleft : Derives .primary [⟨.name "x", left⟩] (.name "x" left) := ⟨.name "x" left rfl, rfl⟩
  -- A primary can stand on both sides of the operator, whatever this is.
  have hside : (Nonterminal.layer op.binaryOp.layer).power ≤ Nonterminal.primary.power := by
    cases op <;> decide
  have hoperand : op.binaryOp.layer.operand.power ≤ Nonterminal.primary.power := by
    cases op <;> decide
  have hvalue := (hleft.of_power_le hside).operation op.binaryOp
    (t := ⟨.symbol op.binaryOp.symbol, sign⟩) rfl (hright.of_power_le hoperand)
  have hcondition : Nonterminal.condition.power ≤ (Nonterminal.layer op.binaryOp.layer).power := by
    cases op <;> decide
  have hparse := parseStatement_assignment .set hread split (hvalue.of_power_le hcondition)
  refine ⟨by rw [hparse]; rfl, fun x scopes => ?_⟩
  rw [exec_assignment hparse, Expr.eval, Expr.eval, programVariable]
  cases e.eval x scopes <;> cases op <;> rfl

/-- The short form is read if the expression is, and does what the operator says. -/
lemma exec_short (op : Arithmetic) (h : parseCondition text = .ok e) :
    (parseStatement (op.short text)).isOk ∧ ∀ x scopes,
      StatementCode.exec (.ofText (op.short text)) x scopes =
        ((e.eval x scopes).map fun v => op.assignOp.apply x v.toNumber).mapError
          (.unbound <| UnboundName.moved (· + 5) ·) := by
  obtain ⟨ts, hts, ⟨d, rfl⟩⟩ := exists_lexemes_of_parseCondition h
  have hparse := parseStatement_assignment op.assignOp (op.ofText_short hts) rfl
    (d.exists_moved (· + 5))
  refine ⟨by rw [hparse]; rfl, fun x scopes => ?_⟩
  rw [exec_assignment hparse, Expr.eval_moved]
  cases d.tree.eval x scopes <;> rfl

/-- The long form is read if the expression is, and does the same with the error in another
place. -/
lemma exec_long (op : Arithmetic) (h : parseCondition text = .ok e) :
    (parseStatement (op.long text)).isOk ∧ ∀ x scopes,
      StatementCode.exec (.ofText (op.long text)) x scopes =
        ((e.eval x scopes).map fun v => op.assignOp.apply x v.toNumber).mapError
          (.unbound <| UnboundName.moved (· + 9) ·) := by
  obtain ⟨ts, hts, ⟨d, rfl⟩⟩ := exists_lexemes_of_parseCondition h
  obtain ⟨closing, hlong⟩ := op.ofText_long hts
  obtain ⟨d', hd'⟩ := d.exists_moved (· + 9)
  obtain ⟨hok, hexec⟩ := op.exec_set_operation hlong rfl ⟨.parentheses d' rfl, hd'⟩
  refine ⟨hok, fun x scopes => ?_⟩
  rw [hexec, Expr.eval_moved]
  cases d.tree.eval x scopes <;> rfl

/-- `x++` adds one. -/
lemma exec_increment (x : Float) (scopes : Scopes) :
    StatementCode.exec (.ofText "x++") x scopes = .ok (x + 1) := by
  have hread : Lexeme.ofText "x++" = .ok [⟨.name "x", ⟨0, 1⟩⟩, ⟨.symbol .increment, ⟨1, 3⟩⟩] :=
    eq_ok_of_toOption_eq_some (by decide +kernel)
  rw [exec_assignment (parseStatement_of_ofSegment hread (by simp) (by simp) (.increment rfl))]
  rfl

/-- `x--` takes one away. -/
lemma exec_decrement (x : Float) (scopes : Scopes) :
    StatementCode.exec (.ofText "x--") x scopes = .ok (x - 1) := by
  have hread : Lexeme.ofText "x--" = .ok [⟨.name "x", ⟨0, 1⟩⟩, ⟨.symbol .decrement, ⟨1, 3⟩⟩] :=
    eq_ok_of_toOption_eq_some (by decide +kernel)
  rw [exec_assignment (parseStatement_of_ofSegment hread (by simp) (by simp) (.decrement rfl))]
  rfl

/-- To set `x` to itself and 1 is to assign 1 with the operator. -/
lemma exec_set_byOne (op : Arithmetic) (x : Float) (scopes : Scopes) :
    StatementCode.exec (.ofText ("x = x " ++ op.sign ++ " 1")) x scopes =
      .ok (op.assignOp.apply x 1) := by
  have hread : Lexeme.ofText ("x = x " ++ op.sign ++ " 1") =
      .ok (⟨.name "x", ⟨0, 1⟩⟩ :: ⟨.symbol .assign, ⟨2, 3⟩⟩ :: ([⟨.name "x", ⟨4, 5⟩⟩] ++
        ⟨.symbol op.binaryOp.symbol, ⟨6, 7⟩⟩ :: [⟨.number 1, ⟨8, 9⟩⟩])) :=
    eq_ok_of_toOption_eq_some (by cases op <;> decide +kernel)
  rw [(op.exec_set_operation hread rfl ⟨.number 1 rfl, rfl⟩).2]
  rfl

/-- With an expression, the short form of an assignment and the long one are both statements. The
long one comes to the same number, or fails at the same name in the expression, which stands four
bytes further back; nothing else can go wrong. `x++` and `x--` come to the same as `x = x + 1` and
`x = x - 1`. -/
theorem long_eq_short {text : String} (h : (parseCondition text).isOk) (op : Arithmetic) :
    (parseStatement (op.short text)).isOk ∧ (parseStatement (op.long text)).isOk ∧
    (∀ x scopes, StatementCode.exec (.ofText (op.long text)) x scopes =
      (StatementCode.exec (.ofText (op.short text)) x scopes).mapError
        (ExprError.moved (· + 4))) ∧
    (∀ x scopes error, StatementCode.exec (.ofText (op.short text)) x scopes = .error error →
      ∃ name, error = .unbound name) ∧
    ∀ x scopes,
      (StatementCode.exec (.ofText "x++") x scopes = .ok (x + 1) ∧
        StatementCode.exec (.ofText "x = x + 1") x scopes = .ok (x + 1)) ∧
      StatementCode.exec (.ofText "x--") x scopes = .ok (x - 1) ∧
        StatementCode.exec (.ofText "x = x - 1") x scopes = .ok (x - 1) := by
  obtain ⟨e, he⟩ := exists_eq_ok_of_isOk h
  obtain ⟨hokShort, hshort⟩ := op.exec_short he
  obtain ⟨hokLong, hlong⟩ := op.exec_long he
  refine ⟨hokShort, hokLong, fun x scopes => ?_, fun x scopes error herror => ?_, ?_⟩
  · rw [hlong, hshort]
    cases e.eval x scopes <;> rfl
  · rw [hshort] at herror
    obtain ⟨name, -, hname⟩ := exists_of_mapError_eq_error herror
    exact ⟨name.moved _, hname.symm⟩
  · exact fun x scopes => ⟨⟨exec_increment x scopes, exec_set_byOne add x scopes⟩,
      exec_decrement x scopes, exec_set_byOne subtract x scopes⟩

/-- Divided by a choice without a value for `y`, both forms fail at `y`. -/
theorem long_eq_short_choice :
    (parseCondition "x > 1 ? y : true").isOk ∧
    (parseStatement (divide.short "x > 1 ? y : true")).isOk ∧
    (parseStatement "x = x / (x > 1 ? y : true)").isOk ∧
    StatementCode.exec (.ofText "x = x / (x > 1 ? y : true)") (-3) [] = .ok (-3) ∧
    StatementCode.exec (.ofText (divide.short "x > 1 ? y : true")) 3 [] =
      .error (.unbound ⟨"y", ⟨13, 14⟩⟩) ∧
    StatementCode.exec (.ofText "x = x / (x > 1 ? y : true)") 3 [] =
      .error (.unbound ⟨"y", ⟨17, 18⟩⟩) := by
  have hok : (parseCondition "x > 1 ? y : true").isOk := by decide +kernel
  obtain ⟨hshort, hlong, hsame, -, -⟩ := long_eq_short hok divide
  have hvalue : StatementCode.exec (.ofText (divide.short "x > 1 ? y : true")) (-3) [] =
      .ok (-3) := by decide +kernel
  have herror : StatementCode.exec (.ofText (divide.short "x > 1 ? y : true")) 3 [] =
      .error (.unbound ⟨"y", ⟨13, 14⟩⟩) := by decide +kernel
  refine ⟨hok, hshort, hlong, ?_, herror, ?_⟩
  · exact (hsame (-3) []).trans (by rw [hvalue]; rfl)
  · exact (hsame 3 []).trans (by rw [herror]; rfl)

end Arithmetic

end BlockLang
