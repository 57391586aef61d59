import BlockLang.Proofs.Expr.Semicolons
import BlockLang.Run.Basic

/-!
# Statements one after the other

Main statement: two statement texts with a semicolon between them stand for the instructions of the
first and then those of the second, which are done in this order. If one of them fails, then a block
with the text leaves the program variable as it was.
-/

namespace BlockLang

open Lexeme

/-! ## Segments on both sides -/

section

variable {move : Nat → Nat}

lemma segments_ne_nil (ts : List Lexeme) : segments ts ≠ [] := by
  rw [segments_eq_splitOnP]
  exact List.splitOnP_ne_nil _ _

/-- A semicolon ends a segment and begins another one. -/
lemma segments_append_semicolon (ts us : List Lexeme) (position : Nat) :
    segments (ts ++ semicolonAt position :: us) = segments ts ++ segments us := by
  induction ts with
  | nil => rfl
  | cons t ts ih =>
    rw [List.cons_append, segments, segments, ih]
    split
    · rfl
    · cases h : segments ts with
      | nil => exact absurd h (segments_ne_nil ts)
      | cons segment others => rfl

/-- Lexemes that are moved have the same segments, moved. -/
lemma segments_map_moved (ts : List Lexeme) :
    segments (ts.map (Lexeme.moved move)) = (segments ts).map (List.map (Lexeme.moved move)) := by
  induction ts with
  | nil => rfl
  | cons t ts ih =>
    rw [List.map_cons, segments, segments, ih]
    show (if t.token = .symbol .semicolon then _ else _) = _
    split
    · rfl
    · cases h : segments ts with
      | nil => exact absurd h (segments_ne_nil ts)
      | cons segment others => rfl

lemma nonemptySegments_eq (ts : List Lexeme) :
    nonemptySegments ts = (segments ts).filter (· ≠ []) := by
  rw [nonemptySegments, segments_eq_splitOnP]

/-- The segments on both sides of a semicolon follow on each other. -/
lemma nonemptySegments_append_semicolon (ts us : List Lexeme) (position : Nat) :
    nonemptySegments (ts ++ semicolonAt position :: us) =
      nonemptySegments ts ++ nonemptySegments us := by
  rw [nonemptySegments_eq, segments_append_semicolon, List.filter_append, ← nonemptySegments_eq,
    ← nonemptySegments_eq]

lemma nonemptySegments_map_moved (ts : List Lexeme) :
    nonemptySegments (ts.map (Lexeme.moved move)) =
      (nonemptySegments ts).map (List.map (Lexeme.moved move)) := by
  rw [nonemptySegments_eq, segments_map_moved, List.filter_map, nonemptySegments_eq]
  congr 2
  funext segment
  simp

/-- There is nothing between semicolons if there are only semicolons. -/
lemma nonemptySegments_eq_nil_iff (ts : List Lexeme) :
    nonemptySegments ts = [] ↔ ∀ t ∈ ts, t.token = .symbol .semicolon := by
  rw [nonemptySegments_eq]
  induction ts with
  | nil => simp [segments]
  | cons t ts ih =>
    rw [segments, List.forall_mem_cons, ← ih]
    split
    · rename_i ht
      simp [ht]
    · rename_i ht
      cases h : segments ts with
      | nil => exact absurd h (segments_ne_nil ts)
      | cons segment others => simp [ht]

end

/-! ## What a text stands for -/

/-- A text of nothing but blanks and semicolons. -/
def isIdle (text : String) : Bool := text.toList.all isDivider

/-- The instructions that a text stands for, none if it is idle. -/
def instructions? (text : String) : Option (List Instruction) :=
  if isIdle text then some [] else (parseStatement text).toOption

variable {text : String} {ts : List Lexeme} {is : List Instruction}

/-- A text is idle if it has no segment with lexemes. -/
lemma isIdle_iff (h : Lexeme.ofText text = .ok ts) : isIdle text ↔ nonemptySegments ts = [] := by
  rw [nonemptySegments_eq_nil_iff]
  exact (layout_of_scan h).all_isDivider_iff

/-- The instructions of a text are those of its segments. -/
lemma instructions?_eq_some_iff :
    instructions? text = some is ↔ ∃ ts, Lexeme.ofText text = .ok ts ∧
      List.Forall₂ Instruction.OfSegment (nonemptySegments ts) is := by
  rw [instructions?]
  split
  · rename_i hidle
    obtain ⟨ts, hts⟩ := exists_scan_of_all_isDivider 0 hidle
    have hnil := (isIdle_iff hts).mp hidle
    constructor
    · intro his
      refine ⟨ts, hts, ?_⟩
      rw [hnil, ← Option.some.inj his]
      exact .nil
    · rintro ⟨ts', hts', hall⟩
      rw [Lexeme.ofText, hts] at hts'
      rw [← Except.ok.inj hts', hnil, List.forall₂_nil_left_iff] at hall
      rw [hall]
  · rename_i hidle
    constructor
    · intro his
      exact exists_lexemes_of_parseStatement (eq_ok_of_toOption_eq_some his)
    · rintro ⟨ts, hts, hall⟩
      rw [isIdle_iff hts] at hidle
      rw [(parseStatement_eq_ok_iff hts).mpr ⟨hidle, hall⟩]
      rfl

/-- A text is a statement if it is not idle and has instructions. -/
lemma parseStatement_eq_ok_iff_instructions? :
    parseStatement text = .ok is ↔ ¬ isIdle text ∧ instructions? text = some is := by
  constructor
  · intro his
    obtain ⟨ts, hts, -⟩ := exists_lexemes_of_parseStatement his
    obtain ⟨hne, hall⟩ := (parseStatement_eq_ok_iff hts).mp his
    exact ⟨mt (isIdle_iff hts).mp hne, instructions?_eq_some_iff.mpr ⟨ts, hts, hall⟩⟩
  · rintro ⟨hidle, his⟩
    rw [instructions?, if_neg hidle] at his
    exact eq_ok_of_toOption_eq_some his

variable {a b : String} {js ks : List Instruction}

/-- What is behind a text and a semicolon is moved by the bytes of both. -/
def pastSemicolon (a : String) (position : Nat) : Nat := position + (a.utf8ByteSize + 1)

lemma toList_append_semicolon (a b : String) :
    (a ++ ";" ++ b).toList = a.toList ++ ';' :: b.toList := by
  rw [String.toList_append, String.toList_append, List.append_assoc]
  rfl

/-- A text is idle if it is so on both sides of a semicolon. -/
lemma isIdle_append_semicolon (a b : String) :
    isIdle (a ++ ";" ++ b) ↔ isIdle a ∧ isIdle b := by
  rw [isIdle, toList_append_semicolon, List.all_append, List.all_cons, Bool.and_eq_true,
    Bool.and_eq_true, isIdle, isIdle]
  exact and_congr_right fun _ => and_iff_right rfl

/-- A text is scanned on both sides of a semicolon, with the lexemes behind it moved. -/
lemma ofText_append_semicolon (a b : String) :
    Lexeme.ofText (a ++ ";" ++ b) = .ok ts ↔
      ∃ us vs, Lexeme.ofText a = .ok us ∧ Lexeme.ofText b = .ok vs ∧
        us ++ semicolonAt a.utf8ByteSize :: vs.map (Lexeme.moved (pastSemicolon a)) = ts := by
  have hplace : 0 + width a.toList = a.utf8ByteSize := by rw [Nat.zero_add, width_toList]
  have hbehind : a.utf8ByteSize + 1 = 0 + (a.utf8ByteSize + 1) := (Nat.zero_add _).symm
  rw [Lexeme.ofText, toList_append_semicolon, scan_append_semicolon, hplace, hbehind, scan_add,
    Lexeme.ofText, Lexeme.ofText]
  cases scan 0 a.toList with
  | error => simp [bind, Except.bind]
  | ok us =>
    cases scan 0 b.toList with
    | error => simp [bind, Except.bind, Except.map, Except.mapError]
    | ok vs =>
      show Except.ok _ = .ok ts ↔ _
      simp only [Except.ok.injEq, exists_and_left, exists_eq_left']
      rfl

/-! ## Instructions one after the other -/

/-- What belongs to two lists one after the other can be cut between them. -/
lemma exists_of_forall₂_append {R : List Lexeme → Instruction → Prop}
    {segments others : List (List Lexeme)} (h : List.Forall₂ R (segments ++ others) js) :
    ∃ is ks, List.Forall₂ R segments is ∧ List.Forall₂ R others ks ∧ is ++ ks = js :=
  ⟨js.take segments.length, js.drop segments.length,
    (List.forall₂_take_append _ _ _ h.flip).flip, (List.forall₂_drop_append _ _ _ h.flip).flip,
    List.take_append_drop _ _⟩

/-- Moved segments stand for the moved instructions and nothing else. -/
lemma forall₂_map_moved_iff {segments : List (List Lexeme)} (hne : ∀ us ∈ segments, us ≠ [])
    (a : String) :
    List.Forall₂ Instruction.OfSegment
        (segments.map (List.map (Lexeme.moved (pastSemicolon a)))) js ↔
      ∃ is, List.Forall₂ Instruction.OfSegment segments is ∧
        is.map (Instruction.moved (pastSemicolon a)) = js := by
  have hback : ∀ n, pastSemicolon a n - (a.utf8ByteSize + 1) = n :=
    fun n => Nat.add_sub_cancel n _
  induction segments generalizing js with
  | nil => simp [eq_comm]
  | cons us segments ih =>
    rw [List.forall_mem_cons] at hne
    rw [List.map_cons, List.forall₂_cons_left_iff]
    have hone := Instruction.ofSegment_map_moved_iff hne.1 (· - (a.utf8ByteSize + 1)) hback
    simp only [hone, ih hne.2, List.forall₂_cons_left_iff]
    constructor
    · rintro ⟨_, _, ⟨i, hi, rfl⟩, ⟨is, his, rfl⟩, rfl⟩
      exact ⟨i :: is, ⟨i, is, hi, his, rfl⟩, rfl⟩
    · rintro ⟨_, ⟨i, is, hi, his, rfl⟩, rfl⟩
      exact ⟨_, _, ⟨i, hi, rfl⟩, ⟨is, his, rfl⟩, rfl⟩

/-- The instructions of two texts with a semicolon between them are those of the first and then
those of the second. -/
lemma instructions?_append_semicolon (a b : String) :
    instructions? (a ++ ";" ++ b) = some js ↔
      ∃ is ks, instructions? a = some is ∧ instructions? b = some ks ∧
        is ++ ks.map (Instruction.moved (pastSemicolon a)) = js := by
  have hne (vs : List Lexeme) : ∀ us ∈ nonemptySegments vs, us ≠ [] :=
    fun us hus => (infix_of_mem_nonemptySegments hus).2
  simp only [instructions?_eq_some_iff, ofText_append_semicolon]
  constructor
  · rintro ⟨_, ⟨us, vs, hus, hvs, rfl⟩, hall⟩
    rw [nonemptySegments_append_semicolon, nonemptySegments_map_moved] at hall
    obtain ⟨is, ks', his, hks', rfl⟩ := exists_of_forall₂_append hall
    obtain ⟨ks, hks, rfl⟩ := (forall₂_map_moved_iff (hne vs) a).mp hks'
    exact ⟨is, ks, ⟨us, hus, his⟩, ⟨vs, hvs, hks⟩, rfl⟩
  · rintro ⟨is, ks, ⟨us, hus, his⟩, ⟨vs, hvs, hks⟩, rfl⟩
    refine ⟨_, ⟨us, vs, hus, hvs, rfl⟩, ?_⟩
    rw [nonemptySegments_append_semicolon, nonemptySegments_map_moved]
    exact List.rel_append his ((forall₂_map_moved_iff (hne vs) a).mpr ⟨ks, hks, rfl⟩)

/-- A semicolon at the end adds nothing. -/
lemma parseStatement_append_semicolon (h : parseStatement a = .ok js) :
    parseStatement (a ++ ";") = .ok js := by
  obtain ⟨hidle, hjs⟩ := parseStatement_eq_ok_iff_instructions?.mp h
  have hend : a ++ ";" = a ++ ";" ++ "" := String.append_empty.symm
  rw [hend, parseStatement_eq_ok_iff_instructions?, isIdle_append_semicolon,
    instructions?_append_semicolon]
  exact ⟨fun hboth => hidle hboth.1, js, [], hjs, rfl, List.append_nil _⟩

/-! ## Execution -/

variable {x y z : Float} {scopes : Scopes}

lemma mapError_eq_ok_iff {α ε ε' : Type} {f : ε → ε'} {result : Except ε α} {v : α} :
    result.mapError f = .ok v ↔ result = .ok v := by
  cases result <;> simp [Except.mapError]

lemma exists_of_mapError_eq_error {α ε ε' : Type} {f : ε → ε'} {result : Except ε α} {error : ε'}
    (h : result.mapError f = .error error) : ∃ cause, result = .error cause ∧ f cause = error := by
  cases result with
  | error cause => exact ⟨cause, rfl, Except.error.inj h⟩
  | ok => cases h

/-- A statement carries out its instructions. -/
lemma exec_of_parseStatement (h : parseStatement text = .ok is) (x : Float) (scopes : Scopes) :
    StatementCode.exec (.ofText text) x scopes = (execAll scopes is x).mapError .unbound := by
  have hparsed : (Code.ofText text : StatementCode).parsed = .ok is := h
  rw [StatementCode.exec, hparsed]

/-- A text comes to a value if it is a statement whose instructions come to it. -/
lemma exec_eq_ok_iff : StatementCode.exec (.ofText text) x scopes = .ok y ↔
    ∃ is, parseStatement text = .ok is ∧ execAll scopes is x = .ok y := by
  cases h : parseStatement text with
  | error error =>
    have hparsed : (Code.ofText text : StatementCode).parsed = .error error := h
    simp [StatementCode.exec, hparsed]
  | ok is =>
    simp [exec_of_parseStatement h, mapError_eq_ok_iff]

/-- The program variable after a text, the same as before if it is idle. -/
def execText (text : String) (x : Float) (scopes : Scopes) : Except ExprError Float :=
  if isIdle text then .ok x else StatementCode.exec (.ofText text) x scopes

/-- So does a text that can be idle. -/
lemma execText_of_instructions? (h : instructions? text = some is) (x : Float) (scopes : Scopes) :
    execText text x scopes = (execAll scopes is x).mapError .unbound := by
  unfold execText
  split
  · rename_i hidle
    rw [instructions?, if_pos hidle] at h
    rw [← Option.some.inj h]
    rfl
  · rename_i hidle
    exact exec_of_parseStatement (parseStatement_eq_ok_iff_instructions?.mpr ⟨hidle, h⟩) x scopes

/-- A text ends on a value if its instructions do. -/
lemma execText_eq_ok_iff : execText text x scopes = .ok y ↔
    ∃ is, instructions? text = some is ∧ execAll scopes is x = .ok y := by
  by_cases hidle : isIdle text
  · rw [execText, instructions?, if_pos hidle, if_pos hidle]
    simp [execAll, pure, Except.pure]
  · rw [execText, if_neg hidle, exec_eq_ok_iff]
    simp [parseStatement_eq_ok_iff_instructions?, hidle]

/-- Instructions one after the other begin where those before them have come to. -/
lemma execAll_append_moved (is ks : List Instruction) (move : Nat → Nat) (x : Float)
    (scopes : Scopes) :
    execAll scopes (is ++ ks.map (Instruction.moved move)) x = (do
      let y ← execAll scopes is x
      (execAll scopes ks y).mapError (UnboundName.moved move)) := by
  rw [execAll, List.foldlM_append]
  refine bind_congr fun y => ?_
  exact execAll_moved ks y scopes

/-- The instructions behind go on from the value that those in front end on, wherever they stand. -/
lemma execAll_append_moved_eq_ok_iff {ks : List Instruction} {move : Nat → Nat} :
    execAll scopes (is ++ ks.map (Instruction.moved move)) x = .ok z ↔
      ∃ y, execAll scopes is x = .ok y ∧ execAll scopes ks y = .ok z := by
  rw [execAll_append_moved]
  cases execAll scopes is x with
  | error r => simp [bind, Except.bind]
  | ok y =>
    show (execAll scopes ks y).mapError _ = .ok z ↔ _
    simp [mapError_eq_ok_iff]

/-- To come to a value, the first text comes to one from which the second goes on. -/
lemma exec_append_semicolon_eq_ok_iff (hidle : ¬ (isIdle a ∧ isIdle b)) :
    StatementCode.exec (.ofText (a ++ ";" ++ b)) x scopes = .ok z ↔
      ∃ y, execText a x scopes = .ok y ∧ execText b y scopes = .ok z := by
  simp only [exec_eq_ok_iff, parseStatement_eq_ok_iff_instructions?, isIdle_append_semicolon,
    hidle, not_false_iff, true_and, instructions?_append_semicolon, execText_eq_ok_iff]
  constructor
  · rintro ⟨_, ⟨is, ks, his, hks, rfl⟩, hz⟩
    obtain ⟨y, hy, hz⟩ := execAll_append_moved_eq_ok_iff.mp hz
    exact ⟨y, ⟨is, his, hy⟩, ks, hks, hz⟩
  · rintro ⟨y, ⟨is, his, hy⟩, ks, hks, hz⟩
    exact ⟨_, ⟨is, ks, his, hks, rfl⟩, execAll_append_moved_eq_ok_iff.mpr ⟨y, hy, hz⟩⟩

/-- The program variable after one text and then another, behind a semicolon. -/
def execBoth (a b : String) (x : Float) (scopes : Scopes) : Except ExprError Float := do
  let y ← execText a x scopes
  (execText b y scopes).mapError (ExprError.moved (pastSemicolon a))

/-- To carry out two texts is to carry out the instructions of both. -/
lemma execBoth_eq_execAll (ha : instructions? a = some is) (hb : instructions? b = some ks)
    (x : Float) (scopes : Scopes) :
    execBoth a b x scopes = (execAll scopes
      (is ++ ks.map (Instruction.moved (pastSemicolon a))) x).mapError .unbound := by
  rw [execBoth, execText_of_instructions? ha, execAll_append_moved]
  cases execAll scopes is x with
  | error => rfl
  | ok y =>
    show (execText b y scopes).mapError _ = ((execAll scopes ks y).mapError _).mapError _
    rw [execText_of_instructions? hb]
    cases execAll scopes ks y <;> rfl

/-- If the text is a statement, it fails where one of its sides does, and only at a name. -/
lemma exec_append_semicolon_eq_error {error : ExprError}
    (hparse : (parseStatement (a ++ ";" ++ b)).isOk) (h : execBoth a b x scopes = .error error) :
    (∃ name, error = .unbound name) ∧
      StatementCode.exec (.ofText (a ++ ";" ++ b)) x scopes = .error error := by
  obtain ⟨js, hjs⟩ := exists_eq_ok_of_isOk hparse
  obtain ⟨-, hwhole⟩ := parseStatement_eq_ok_iff_instructions?.mp hjs
  obtain ⟨is, ks, his, hks, rfl⟩ := (instructions?_append_semicolon a b).mp hwhole
  have hboth := (execBoth_eq_execAll his hks x scopes).symm.trans h
  obtain ⟨name, -, hname⟩ := exists_of_mapError_eq_error hboth
  exact ⟨⟨name, hname.symm⟩, (exec_of_parseStatement hjs x scopes).trans hboth⟩

/-- Two texts with a semicolon between them are a statement if each is one or idle and they are not
both idle. The instructions are those of the first and then those of the second, moved behind the
semicolon, and they are done in this order. If one of them fails at a name, so does the whole, and
whenever the whole fails, a block with the text leaves the program variable as it was. -/
theorem statement_append_semicolon (a b : String) :
    (∀ js, parseStatement (a ++ ";" ++ b) = .ok js ↔
      ¬ (isIdle a ∧ isIdle b) ∧ ∃ is ks, instructions? a = some is ∧ instructions? b = some ks ∧
        is ++ ks.map (Instruction.moved (pastSemicolon a)) = js) ∧
    (¬ (isIdle a ∧ isIdle b) → ∀ x scopes z,
      StatementCode.exec (.ofText (a ++ ";" ++ b)) x scopes = .ok z ↔
        ∃ y, execText a x scopes = .ok y ∧ execText b y scopes = .ok z) ∧
    ((parseStatement (a ++ ";" ++ b)).isOk → ∀ x scopes error,
      execBoth a b x scopes = .error error → (∃ name, error = .unbound name) ∧
        StatementCode.exec (.ofText (a ++ ";" ++ b)) x scopes = .error error) ∧
    ∀ (ω : Type) (setting : Setting ω) (tag : Tag) (x : Float) (s : RunState ω) (error : ExprError),
      StatementCode.exec (.ofText (a ++ ";" ++ b)) x s.scopes = .error error →
        Block.run setting (.action tag (.statement (.ofText (a ++ ";" ++ b)))) x s =
          (.value x, s.report tag.id (.expression error (a ++ ";" ++ b))) := by
  refine ⟨fun js => ?_, fun hidle x scopes z => exec_append_semicolon_eq_ok_iff hidle,
    fun hok x scopes error => exec_append_semicolon_eq_error hok, ?_⟩
  · rw [parseStatement_eq_ok_iff_instructions?, isIdle_append_semicolon,
      instructions?_append_semicolon]
  · intro ω setting tag x s error herror
    rw [Block.run, Action.run, herror]
    rfl

/-- Without a value for the name `y` the second text fails, and nothing is left of what the first
one did. -/
theorem addThenUnbound_changes_nothing :
    (parseStatement ("x += 5" ++ ";" ++ " x += y")).isOk ∧
      StatementCode.exec (.ofText ("x += 5" ++ ";" ++ " x += y")) 1 (Scopes.push [] "y" 2) =
        .ok 8 ∧
      StatementCode.exec (.ofText ("x += 5" ++ ";" ++ " x += y")) 1 [] =
        .error (.unbound ⟨"y", ⟨13, 14⟩⟩) ∧
      (Block.run (⟨defaultIterationCap, fun _ _ => (none, ()), fun _ _ => none⟩ : Setting Unit)
        (.action { id := ⟨1⟩ } (.statement (.ofText ("x += 5" ++ ";" ++ " x += y")))) 1
          { channel := () }).1 = .value 1 := by
  have hok : (parseStatement ("x += 5" ++ ";" ++ " x += y")).isOk := by decide +kernel
  have hidle : ¬ (isIdle "x += 5" ∧ isIdle " x += y") := by decide
  obtain ⟨-, hdone, hfails, hblock⟩ := statement_append_semicolon "x += 5" " x += y"
  have hvalue := (hdone hidle 1 (Scopes.push [] "y" 2) 8).mpr
    ⟨6, by decide +kernel, by decide +kernel⟩
  have herror : execBoth "x += 5" " x += y" 1 [] = .error (.unbound ⟨"y", ⟨13, 14⟩⟩) := by
    decide +kernel
  obtain ⟨-, hexec⟩ := hfails hok 1 [] _ herror
  refine ⟨hok, hvalue, hexec, ?_⟩
  rw [hblock _ _ _ _ _ _ hexec]

end BlockLang
