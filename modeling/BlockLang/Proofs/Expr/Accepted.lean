import BlockLang.Proofs.Expr.Sound
import BlockLang.Proofs.Expr.Unambiguous
import Mathlib.Data.List.Forall2

/-!
# The texts that are accepted

A condition text is accepted when its lexemes derive from the grammar of expressions, and a
statement text when each of its segments is an assignment or an expression.
-/

namespace BlockLang

variable {stop : Nat}

/-! ## Conditions -/

/-- All lexemes are read as an expression if and only if they derive it. -/
lemma Expr.readAll_eq_ok_iff {ts : List Lexeme} {e : Expr} {after : ParseError.Cause} :
    Expr.readAll stop after ts = .ok e ↔ Derives .condition ts e := by
  rw [← Expr.reads_read_iff_derives stop, Expr.readAll]
  cases h : Expr.read stop 0 ts with
  | error error =>
    constructor
    · rintro ⟨⟩
    · rintro ⟨_, ⟨⟩⟩
  | ok p =>
    obtain ⟨value, rest, shorter⟩ := p
    rw [Expr.reads_ok]
    cases rest with
    | nil =>
      show Except.ok value = .ok e ↔ _
      simp
    | cons t rest =>
      show Except.error _ = .ok e ↔ _
      simp

/-- A text is read as a condition if and only if its lexemes derive one. -/
lemma parseCondition_eq_ok_iff {text : String} {ts : List Lexeme} {e : Expr}
    (h : Lexeme.ofText text = .ok ts) :
    parseCondition text = .ok e ↔ Derives .condition ts e := by
  unfold parseCondition
  rw [h]
  cases ts with
  | nil =>
    constructor
    · rintro ⟨⟩
    · rintro ⟨d, _⟩
      exact absurd rfl d.ne_nil
  | cons => exact Expr.readAll_eq_ok_iff

/-! ## Segments -/

/-- The runs of lexemes between semicolons that are not empty. -/
def nonemptySegments (ts : List Lexeme) : List (List Lexeme) :=
  (ts.splitOnP (·.token = .symbol .semicolon)).filter (· ≠ [])

/-- The segments are what is between the semicolons. -/
lemma segments_eq_splitOnP (ts : List Lexeme) :
    segments ts = ts.splitOnP (·.token = .symbol .semicolon) := by
  induction ts with
  | nil => rfl
  | cons t ts ih =>
    rw [segments, List.splitOnP_cons_eq_if_modifyHead, ← ih]
    by_cases ht : t.token = .symbol .semicolon
    · simp [ht]
    · simp only [ht, if_false, decide_false, Bool.false_eq_true]
      cases hs : segments ts with
      | nil => exact absurd (ih.symm.trans hs) (List.splitOnP_ne_nil _ _)
      | cons => rfl

/-! ## Instructions -/

/-- From the first of the lexemes to the last. -/
def Lexeme.extent (ts : List Lexeme) : Span :=
  match ts.head?, ts.getLast? with
  | some first, some last => ⟨first.span.start, last.span.stop⟩
  | _, _ => ⟨0, 0⟩

lemma Lexeme.extent_cons (first : Lexeme) (more : List Lexeme) :
    extent (first :: more) = ⟨first.span.start, (more.getLast?.getD first).span.stop⟩ := by
  rw [extent, List.getLast?_cons]
  rfl

def AssignOp.symbol : AssignOp → Symbol
  | set => .assign
  | add => .plusAssign
  | subtract => .minusAssign
  | multiply => .starAssign
  | divide => .slashAssign
  | modulo => .percentAssign

/-- An operator that assigns is known by its symbol. -/
lemma Symbol.assignHead?_eq_by {symbol : Symbol} {op : AssignOp} :
    symbol.assignHead? = some (.by op) ↔ symbol = op.symbol := by
  constructor
  · intro h
    cases symbol <;> cases h <;> rfl
  · rintro rfl
    cases op <;> rfl

/-- There are two steps by one, up and down. -/
lemma Symbol.assignHead?_eq_byOne {symbol : Symbol} {op : AssignOp} :
    symbol.assignHead? = some (.byOne op) ↔
      symbol = .increment ∧ op = .add ∨ symbol = .decrement ∧ op = .subtract := by
  constructor
  · intro h
    cases symbol <;> cases h <;> simp
  · rintro (⟨rfl, rfl⟩ | ⟨rfl, rfl⟩) <;> rfl

lemma exists_of_map_eq_ok {ε α β : Type} {f : α → β} {r : Except ε α} {b : β}
    (h : r.map f = .ok b) : ∃ a, r = .ok a ∧ f a = b := by
  cases r with
  | error => cases h
  | ok a => exact ⟨a, rfl, Except.ok.inj h⟩

namespace Instruction

/-- The instruction that a segment of a statement stands for. Only `x` can be assigned. -/
inductive OfSegment : List Lexeme → Instruction → Prop
  | assign {ts us target span} (op : AssignOp) (value : Derivation .condition us)
      (split : ts = ⟨.name "x", target⟩ :: ⟨.symbol op.symbol, span⟩ :: us) :
      OfSegment ts (.assign "x" op value.tree (Lexeme.extent ts))
  | increment {ts target span}
      (split : ts = [⟨.name "x", target⟩, ⟨.symbol .increment, span⟩]) :
      OfSegment ts (.assign "x" .add (.number 1) (Lexeme.extent ts))
  | decrement {ts target span}
      (split : ts = [⟨.name "x", target⟩, ⟨.symbol .decrement, span⟩]) :
      OfSegment ts (.assign "x" .subtract (.number 1) (Lexeme.extent ts))
  | bare {ts} (value : Derivation .condition ts) :
      OfSegment ts (.bare value.tree (Lexeme.extent ts))

/-- An assignment begins with a name and a symbol that assigns. -/
lemma head?_eq_some {ts : List Lexeme} {target : String} {span : Span} {head : AssignHead}
    (h : head? ts = some (target, span, head)) :
    ∃ s span' us, ts = ⟨.name target, span⟩ :: ⟨.symbol s, span'⟩ :: us ∧
      s.assignHead? = some head := by
  unfold head? at h
  split at h
  case h_1 word span s span' us =>
    obtain ⟨head', hs, heq⟩ := Option.map_eq_some_iff.mp h
    cases heq
    exact ⟨s, span', us, rfl, hs⟩
  case h_2 => cases h

/-- An expression does not begin like an assignment. -/
lemma head?_eq_none {ts : List Lexeme} (d : Derivation .condition ts) : head? ts = none := by
  cases h : head? ts with
  | none => rfl
  | some found =>
    obtain ⟨target, span, head⟩ := found
    obtain ⟨s, span', us, rfl, hs⟩ := head?_eq_some h
    have := d.not_statementOnly ⟨.symbol s, span'⟩ (by simp)
    simp [Token.statementOnly, hs] at this

/-- The lexemes of an instruction are read as it. -/
lemma ofLexemes_of_ofSegment {first : Lexeme} {more : List Lexeme} {i : Instruction}
    (h : OfSegment (first :: more) i) : ofLexemes stop first more = .ok i := by
  cases h with
  | assign op value split =>
    cases split
    have hs : op.symbol.assignHead? = some (.by op) := Symbol.assignHead?_eq_by.mpr rfl
    simp only [ofLexemes, head?, hs, Option.map_some, programVariable, ne_eq, not_true, if_false,
      List.drop_succ_cons, List.drop_zero, Expr.readAll_eq_ok_iff.mpr ⟨value, rfl⟩,
      Lexeme.extent_cons]
    rfl
  | increment split =>
    cases split
    rfl
  | decrement split =>
    cases split
    rfl
  | bare value =>
    simp only [ofLexemes, head?_eq_none value, Expr.readAll_eq_ok_iff.mpr ⟨value, rfl⟩,
      Lexeme.extent_cons]
    rfl

/-- Lexemes that are read as an instruction are those of one. -/
lemma ofSegment_of_ofLexemes {first : Lexeme} {more : List Lexeme} {i : Instruction}
    (h : ofLexemes stop first more = .ok i) : OfSegment (first :: more) i := by
  rw [ofLexemes] at h
  cases hh : head? (first :: more) with
  | none =>
    simp only [hh, ← Lexeme.extent_cons] at h
    obtain ⟨e, hr, rfl⟩ := exists_of_map_eq_ok h
    obtain ⟨d, rfl⟩ := Expr.readAll_eq_ok_iff.mp hr
    exact .bare d
  | some found =>
    obtain ⟨target, span, head⟩ := found
    obtain ⟨s, span', us, hts, hs⟩ := head?_eq_some hh
    simp only [hh, ← Lexeme.extent_cons] at h
    rw [hts] at h ⊢
    -- Any target but `x` is refused, even if there is no value.
    by_cases ht : target = programVariable
    · subst ht
      simp only [ne_eq, not_true, if_false, List.drop_succ_cons, List.drop_zero] at h
      rcases head with op | op
      · obtain rfl := Symbol.assignHead?_eq_by.mp hs
        obtain ⟨e, hr, rfl⟩ := exists_of_map_eq_ok h
        obtain ⟨d, rfl⟩ := Expr.readAll_eq_ok_iff.mp hr
        exact .assign op d rfl
      · cases us with
        | cons => cases h
        | nil =>
          cases h
          rcases Symbol.assignHead?_eq_byOne.mp hs with ⟨rfl, rfl⟩ | ⟨rfl, rfl⟩
          · exact .increment rfl
          · exact .decrement rfl
    · simp only [ne_eq, ht, not_false_iff, if_true] at h
      cases h

/-- A segment is read as an instruction if and only if it is a segment of it. -/
lemma ofLexemes_eq_ok_iff {first : Lexeme} {more : List Lexeme} {i : Instruction} :
    ofLexemes stop first more = .ok i ↔ OfSegment (first :: more) i :=
  ⟨ofSegment_of_ofLexemes, ofLexemes_of_ofSegment⟩

end Instruction

/-- A segment is read first, and then the others. -/
lemma readSegments_cons_eq_ok_iff {first : Lexeme} {more : List Lexeme}
    {others : List (List Lexeme)} {is : List Instruction} :
    readSegments stop ((first :: more) :: others) = .ok is ↔
      ∃ i js, Instruction.ofLexemes stop first more = .ok i ∧
        readSegments stop others = .ok js ∧ is = i :: js := by
  rw [readSegments]
  cases Instruction.ofLexemes stop first more with
  | error => simp [bind, Except.bind]
  | ok i =>
    cases readSegments stop others with
    | error => simp [bind, Except.bind]
    | ok js => simp [bind, Except.bind, pure, Except.pure, eq_comm]

/-- Segments are read one by one, and the ones without lexemes are passed over. -/
lemma readSegments_eq_ok_iff {segments : List (List Lexeme)} {is : List Instruction} :
    readSegments stop segments = .ok is ↔
      List.Forall₂ Instruction.OfSegment (segments.filter (· ≠ [])) is := by
  induction segments generalizing is with
  | nil => simp [readSegments, eq_comm]
  | cons segment others ih =>
    cases segment with
    | nil =>
      -- An empty segment stands for nothing.
      rw [readSegments, ih]
      simp
    | cons first more =>
      rw [readSegments_cons_eq_ok_iff, List.filter_cons_of_pos (by simp),
        List.forall₂_cons_left_iff]
      simp only [Instruction.ofLexemes_eq_ok_iff, ih, exists_and_left]

/-- A text is read as a statement if all its segments are and there is an instruction among them. -/
lemma parseStatement_eq_ok_iff_readSegments {text : String} {ts : List Lexeme}
    {is : List Instruction} (h : Lexeme.ofText text = .ok ts) :
    parseStatement text = .ok is ↔
      readSegments (width text.toList) (segments ts) = .ok is ∧ is ≠ [] := by
  unfold parseStatement
  rw [h]
  simp only [bind, Except.bind]
  cases readSegments (width text.toList) (segments ts) with
  | error => simp
  | ok js =>
    constructor
    · intro hok
      cases js with
      | nil => cases hok
      | cons j js =>
        cases hok
        exact ⟨rfl, List.cons_ne_nil _ _⟩
    · rintro ⟨hok, hne⟩
      cases hok
      cases is with
      | nil => exact absurd rfl hne
      | cons => rfl

/-- A text is read as a statement if and only if it has a segment with lexemes and all of these are
instructions. -/
lemma parseStatement_eq_ok_iff {text : String} {ts : List Lexeme} {is : List Instruction}
    (h : Lexeme.ofText text = .ok ts) :
    parseStatement text = .ok is ↔
      nonemptySegments ts ≠ [] ∧ List.Forall₂ Instruction.OfSegment (nonemptySegments ts) is := by
  rw [parseStatement_eq_ok_iff_readSegments h, readSegments_eq_ok_iff, segments_eq_splitOnP]
  constructor
  · rintro ⟨hall, hne⟩
    refine ⟨fun hnil => hne ?_, hall⟩
    have hlen : (nonemptySegments ts).length = is.length := hall.length_eq
    rw [hnil] at hlen
    exact List.length_eq_zero_iff.mp hlen.symm
  · rintro ⟨hne, hall⟩
    refine ⟨hall, fun hnil => hne ?_⟩
    rw [hnil] at hall
    exact List.forall₂_nil_right_iff.mp hall

/-- An assignment that was parsed has the target `x`. -/
lemma Instruction.OfSegment.target_eq {ts : List Lexeme} {target : String} {op : AssignOp}
    {value : Expr} {span : Span} (h : OfSegment ts (.assign target op value span)) :
    target = "x" := by
  cases h <;> rfl

/-- Every instruction has a segment. -/
lemma exists_ofSegment_of_mem {segments : List (List Lexeme)} {is : List Instruction}
    (h : List.Forall₂ Instruction.OfSegment segments is) {i : Instruction} (hi : i ∈ is) :
    ∃ ts ∈ segments, Instruction.OfSegment ts i := by
  induction h with
  | nil => cases hi
  | cons hhead _ ih =>
    rcases List.mem_cons.mp hi with rfl | htail
    · exact ⟨_, List.mem_cons_self, hhead⟩
    · obtain ⟨ts, hts, h⟩ := ih htail
      exact ⟨ts, List.mem_cons_of_mem _ hts, h⟩

/-- A text that can be taken apart into lexemes is a condition if and only if these derive from the
grammar, and then their one derivation, in which only functions are called, gives the expression.
It is a statement if and only if it has a segment that is not empty and each of these is an
assignment to `x` or an expression. -/
theorem parse_eq_ok_iff_derivation {text : String} {lexemes : List Lexeme}
    (h : Lexeme.ofText text = .ok lexemes) :
    (∀ v, parseCondition text = .ok v ↔ ∃ d : Derivation .condition lexemes, d.tree = v) ∧
    Subsingleton (Derivation .condition lexemes) ∧
    (∀ us word span opening vs, Derivation .condition lexemes →
      lexemes = us ++ ⟨.name word, span⟩ :: ⟨.symbol .openParen, opening⟩ :: vs →
      (Builtin.ofName? word).isSome) ∧
    (IsEmpty (Derivation .condition lexemes) → ∃ error, parseCondition text = .error error) ∧
    (∀ is, parseStatement text = .ok is ↔ nonemptySegments lexemes ≠ [] ∧
      List.Forall₂ Instruction.OfSegment (nonemptySegments lexemes) is) ∧
    (∀ is, parseStatement text = .ok is →
      ∀ target op value span, .assign target op value span ∈ is → target = "x") := by
  refine ⟨fun v => parseCondition_eq_ok_iff h, ⟨Derivation.eq⟩, ?_, ?_,
    fun is => parseStatement_eq_ok_iff h, ?_⟩
  · rintro us word span opening vs d rfl
    exact d.isSome_of_call
  · -- What has no derivation cannot have been accepted.
    intro hempty
    cases hp : parseCondition text with
    | error error => exact ⟨error, rfl⟩
    | ok v =>
      obtain ⟨d, _⟩ := (parseCondition_eq_ok_iff h).mp hp
      exact hempty.elim d
  · intro is his target op value span hmem
    obtain ⟨_, hall⟩ := (parseStatement_eq_ok_iff h).mp his
    obtain ⟨ts, -, hts⟩ := exists_ofSegment_of_mem hall hmem
    exact hts.target_eq

lemma eq_ok_of_toOption_eq_some {ε α : Type} {r : Except ε α} {a : α}
    (h : r.toOption = some a) : r = .ok a := by
  cases r with
  | error => cases h
  | ok => rw [Option.some.inj h]

lemma exists_eq_ok_of_isOk {ε α : Type} {r : Except ε α} (h : r.isOk) : ∃ a, r = .ok a := by
  cases r with
  | error => cases h
  | ok a => exact ⟨a, rfl⟩

/-- What `!x < i ? x : -x` is taken apart into. -/
def choiceLexemes : List Lexeme :=
  [⟨.symbol .not, ⟨0, 1⟩⟩, ⟨.name "x", ⟨1, 2⟩⟩, ⟨.symbol .less, ⟨3, 4⟩⟩, ⟨.name "i", ⟨5, 6⟩⟩,
    ⟨.symbol .question, ⟨7, 8⟩⟩, ⟨.name "x", ⟨9, 10⟩⟩, ⟨.symbol .colon, ⟨11, 12⟩⟩,
    ⟨.symbol .minus, ⟨13, 14⟩⟩, ⟨.name "x", ⟨14, 15⟩⟩]

/-- The operators of a condition bind as the grammar has it. -/
theorem parseCondition_choice :
    Lexeme.ofText "!x < i ? x : -x" = .ok choiceLexemes ∧
      parseCondition "!x < i ? x : -x" =
        .ok (.choice (.binary .less (.unary .not (.name "x" ⟨1, 2⟩)) (.name "i" ⟨5, 6⟩))
          (.name "x" ⟨9, 10⟩) (.unary .negate (.name "x" ⟨14, 15⟩))) := by
  have hread : (Lexeme.ofText "!x < i ? x : -x").toOption = some choiceLexemes := by
    decide +kernel
  have hlex : Lexeme.ofText "!x < i ? x : -x" = .ok choiceLexemes :=
    eq_ok_of_toOption_eq_some hread
  have hname (word : String) (span : Span) :
      Derives .unary [⟨.name word, span⟩] (.name word span) :=
    ⟨.primary (.name word span rfl), rfl⟩
  have hunary (op : UnaryOp) (span span' : Span) :
      Derives .unary [⟨.symbol op.symbol, span⟩, ⟨.name "x", span'⟩]
        (.unary op (.name "x" span')) :=
    ⟨.unary op (.primary (.name "x" span' rfl)) rfl, rfl⟩
  have hless := ((hunary .not ⟨0, 1⟩ ⟨1, 2⟩).of_power_le (by decide)).operation
    .less (t := ⟨.symbol .less, ⟨3, 4⟩⟩) rfl ((hname "i" ⟨5, 6⟩).of_power_le (by decide))
  have hchoice := (hless.of_power_le (by decide)).choice
    (t := ⟨.symbol .question, ⟨7, 8⟩⟩) rfl ((hname "x" ⟨9, 10⟩).of_power_le (by decide))
    (c := ⟨.symbol .colon, ⟨11, 12⟩⟩) rfl
    ((hunary .negate ⟨13, 14⟩ ⟨14, 15⟩).of_power_le (by decide))
  exact ⟨hlex, ((parse_eq_ok_iff_derivation hlex).1 _).mpr hchoice⟩

end BlockLang
