import BlockLang.Block.Label
import BlockLang.Proofs.Expr.Abbreviations

/-!
# What the label of a block says

The label of a block that adds a counter is a statement. Main statement: the block does what the
statement says, for every counter whose name is an identifier and not that of the program variable.
-/

namespace BlockLang

variable {ω : Type} {name : String} {span : Span} {counter : Float}
  {s : RunState ω}

/-- A name alone is an expression. -/
lemma parseCondition_of_name (h : Lexeme.ofText name = .ok [⟨.name name, span⟩]) :
    parseCondition name = .ok (.name name span) := by
  have hname : Derives .primary [⟨.name name, span⟩] (.name name span) := ⟨.name name span rfl, rfl⟩
  exact (parseCondition_eq_ok_iff h).mpr (hname.of_power_le (by decide))

/-- A statement with the label of a block that adds a counter adds its value. -/
lemma exec_label_addCounter (tag : Tag) (hname : Lexeme.ofText name = .ok [⟨.name name, span⟩])
    (hx : name ≠ programVariable) {scopes : Scopes} (hcounter : scopes.get? name = some counter)
    (x : Float) :
    StatementCode.exec (.ofText (Block.action tag (.addCounter name)).label) x scopes =
      .ok (x + counter) := by
  have hlabel : (Block.action tag (.addCounter name)).label = Arithmetic.add.short name ++ ";" :=
    rfl
  obtain ⟨hok, hexec⟩ := Arithmetic.add.exec_short (parseCondition_of_name hname)
  obtain ⟨is, hshort⟩ := exists_eq_ok_of_isOk hok
  have hwhole := parseStatement_append_semicolon hshort
  rw [hlabel, exec_of_parseStatement hwhole, ← exec_of_parseStatement hshort, hexec, Expr.eval,
    if_neg hx, hcounter]
  rfl

/-- A block that adds a counter and a statement with its label both add the value of the counter,
and leave everything else as it was, unless the counter is called like the program variable. -/
theorem addCounter_run_eq_label (hname : Lexeme.ofText name = .ok [⟨.name name, span⟩])
    (hx : name ≠ programVariable) (hcounter : s.scopes.get? name = some counter)
    (setting : Setting ω) (tag tag' : Tag) (x : Float) :
    Block.run setting (.action tag (.addCounter name)) x s = (.value (x + counter), s) ∧
    Block.run setting (.action tag'
      (.statement (.ofText (Block.action tag (.addCounter name)).label))) x s =
        (.value (x + counter), s) := by
  constructor
  · rw [Block.run, Action.run, hcounter]
  · rw [Block.run, Action.run, exec_label_addCounter tag hname hx hcounter]

/-- The setting of a run that nothing is written in. -/
def quiet : Setting Unit :=
  ⟨defaultIterationCap, fun _ _ => (none, ()), fun _ _ => none⟩

/-- Of two counters `i` the inner one is added, with the block and with its label. -/
theorem addCounter_run_eq_label_inner :
    Lexeme.ofText "i" = .ok [⟨.name "i", ⟨0, 1⟩⟩] ∧ "i" ≠ programVariable ∧
    Scopes.get? [⟨"j", 1⟩, ⟨"i", 2⟩, ⟨"i", 40⟩] "i" = some 2 ∧
    Block.run quiet (.action { id := ⟨1⟩ } (.addCounter "i")) 5
        { channel := (), scopes := [⟨"j", 1⟩, ⟨"i", 2⟩, ⟨"i", 40⟩] } =
      (.value (5 + 2), { channel := (), scopes := [⟨"j", 1⟩, ⟨"i", 2⟩, ⟨"i", 40⟩] }) ∧
    Block.run quiet (.action { id := ⟨2⟩ } (.statement (.ofText "x += i;"))) 5
        { channel := (), scopes := [⟨"j", 1⟩, ⟨"i", 2⟩, ⟨"i", 40⟩] } =
      (.value (5 + 2), { channel := (), scopes := [⟨"j", 1⟩, ⟨"i", 2⟩, ⟨"i", 40⟩] }) := by
  have hname : Lexeme.ofText "i" = .ok [⟨.name "i", ⟨0, 1⟩⟩] :=
    eq_ok_of_toOption_eq_some (by decide +kernel)
  have hx : "i" ≠ programVariable := by decide
  have hcounter : Scopes.get? [⟨"j", 1⟩, ⟨"i", 2⟩, ⟨"i", 40⟩] "i" = some 2 := by decide +kernel
  obtain ⟨hblock, hstatement⟩ := addCounter_run_eq_label
    (s := { channel := (), scopes := [⟨"j", 1⟩, ⟨"i", 2⟩, ⟨"i", 40⟩] }) hname hx hcounter quiet
    { id := ⟨1⟩ } { id := ⟨2⟩ } 5
  exact ⟨hname, hx, hcounter, hblock, hstatement⟩

/-- A counter `x` is added by the block, while its label adds the program variable to itself. If
there is a blank in the name of a counter, its label speaks of the counter without it. -/
theorem label_of_counter_x :
    (Lexeme.ofText "x" = .ok [⟨.name "x", ⟨0, 1⟩⟩] ∧ Scopes.get? [⟨"x", 3⟩] "x" = some 3 ∧
      (Block.action { id := ⟨1⟩ } (.addCounter "x")).label = "x += x;" ∧
      (Block.run quiet (.action { id := ⟨1⟩ } (.addCounter "x")) 5
        { channel := (), scopes := [⟨"x", 3⟩] }).1 = .value 8 ∧
      (Block.run quiet (.action { id := ⟨1⟩ } (.statement (.ofText "x += x;"))) 5
        { channel := (), scopes := [⟨"x", 3⟩] }).1 = .value 10) ∧
    Lexeme.ofText " i" = .ok [⟨.name "i", ⟨1, 2⟩⟩] ∧ Scopes.get? [⟨" i", 3⟩] " i" = some 3 ∧
      (Block.action { id := ⟨1⟩ } (.addCounter " i")).label = "x +=  i;" ∧
      (Block.run quiet (.action { id := ⟨1⟩ } (.addCounter " i")) 5
        { channel := (), scopes := [⟨" i", 3⟩] }).1 = .value 8 ∧
      (Block.run quiet (.action { id := ⟨1⟩ } (.statement (.ofText "x +=  i;"))) 5
        { channel := (), scopes := [⟨" i", 3⟩] }).1 = .value 5 := by
  have hsum : (5 : Float) + 3 = 8 := by decide +kernel
  have hx : Scopes.get? [⟨"x", 3⟩] "x" = some 3 := by decide +kernel
  have hblank : Scopes.get? [⟨" i", 3⟩] " i" = some 3 := by decide +kernel
  have htwice : StatementCode.exec (.ofText "x += x;") 5 [⟨"x", 3⟩] = .ok 10 := by decide +kernel
  have hother : StatementCode.exec (.ofText "x +=  i;") 5 [⟨" i", 3⟩] =
      .error (.unbound ⟨"i", ⟨6, 7⟩⟩) := by decide +kernel
  refine ⟨⟨eq_ok_of_toOption_eq_some (by decide +kernel), hx, rfl, ?_, ?_⟩,
    eq_ok_of_toOption_eq_some (by decide +kernel), hblank, rfl, ?_, ?_⟩
  · rw [Block.run, Action.run, hx, ← hsum]
  · rw [Block.run, Action.run, htwice]
  · rw [Block.run, Action.run, hblank, ← hsum]
  · rw [Block.run, Action.run, hother]

end BlockLang
