import BlockLang.Proofs.Expr.Accepted
import BlockLang.Proofs.Run.Begins

/-!
# Blocks inside an if/else

Blocks are put inside an if/else whose condition always holds. Main statement: in a section this
changes no run, and in the body of a loop it changes only what a break among the blocks leaves
behind, which is the value that the program variable had before all of them.
-/

namespace BlockLang

variable {ω : Type} {setting : Setting ω}

/-! ## A condition that always holds -/

lemma parseCondition_true : parseCondition "true" = .ok (.boolean true) := by
  have hread : (Lexeme.ofText "true").toOption = some [⟨.truth true, ⟨0, 4⟩⟩] := by
    decide +kernel
  have htrue : Derives .unary [⟨.truth true, ⟨0, 4⟩⟩] (.boolean true) :=
    ⟨.primary (.boolean true rfl), rfl⟩
  exact (parseCondition_eq_ok_iff (eq_ok_of_toOption_eq_some hread)).mpr
    (htrue.of_power_le (by decide))

/-- The condition `true` holds everywhere. -/
lemma ConditionCode.eval_true (x : Float) (scopes : Scopes) :
    ConditionCode.eval (.ofText "true") x scopes = Except.ok (.boolean true) := by
  have hparsed : (Code.ofText "true" : ConditionCode).parsed = .ok (.boolean true) :=
    parseCondition_true
  rw [eval, hparsed]
  rfl

/-- A test of `true` has no effect. -/
lemma RunState.test_true (s : RunState ω) (id : BlockId) (x : Float) :
    s.test id (.ofText "true") x = (true, s) :=
  s.test_of_ok id (ConditionCode.eval_true x s.scopes)

/-! ## Lists of blocks -/

namespace Block

/-- The blocks inside an if/else whose condition always holds. -/
def always (tag : Tag) (bs : List Block) : Block :=
  .ifElse tag (some (.ofText "true")) bs []

variable {tag : Tag} {pre mid : List Block} {part : Part} {x y z w : Float} {s t u v : RunState ω}

/-- A choice that always holds runs its part, but leaves with the value it began with. -/
lemma run_always (tag : Tag) (bs : List Block) (x : Float) (s : RunState ω) :
    (always tag bs).run setting x s =
      ((runAll setting bs x s).1.backTo x, (runAll setting bs x s).2) := by
  rw [always, run_ifElse, s.test_true]
  rfl

lemma run_always_of_leave (h : runAll setting mid x s = (.leave y, t)) :
    (always tag mid).run setting x s = (.leave x, t) := by
  rw [run_always, h]
  rfl

/-- If a break leaves the blocks with the value that they began with, nothing is lost. -/
lemma run_always_of_leave_eq
    (h : ∀ y t, runAll setting mid x s = (.leave y, t) → y = x) :
    (always tag mid).run setting x s = runAll setting mid x s := by
  rw [run_always]
  rcases hr : runAll setting mid x s with ⟨y | y | why, t⟩
  · rfl
  · rw [h y t hr]
    rfl
  · rfl

/-- Where a break leaves the blocks, the list ends with the value that the break was come to with,
and with the blocks inside an if/else it ends with the value that the if/else began with. -/
lemma runAll_always_of_leave (hpre : runAll setting pre y t = (.value z, u))
    (hmid : runAll setting mid z u = (.leave w, v)) (tag : Tag) (post : List Block) :
    runAll setting (pre ++ (mid ++ post)) y t = (.leave w, v) ∧
      runAll setting (pre ++ always tag mid :: post) y t = (.leave z, v) := by
  constructor
  · rw [runAll_append_of_value hpre, runAll_append_of_leave hmid]
  · rw [runAll_append_of_value hpre]
    exact runAll_cons_of_leave (run_always_of_leave hmid)

/-- Otherwise the list does the same with the blocks inside an if/else. -/
lemma runAll_always
    (h : ∀ z u, runAll setting pre y t = (.value z, u) →
      ∀ w v, runAll setting mid z u = (.leave w, v) → w = z) (tag : Tag) (post : List Block) :
    runAll setting (pre ++ always tag mid :: post) y t =
      runAll setting (pre ++ (mid ++ post)) y t := by
  refine runAll_append_congr fun z u hpre => ?_
  show runAll setting ([always tag mid] ++ post) z u = _
  refine runAll_append_congr_left ?_ post
  rw [runAll_singleton, run_always_of_leave_eq (h z u hpre)]

/-- A section loses the value on the way out of a loop in any case. -/
lemma alike_always_of_ne_body (hpart : part ≠ .body) (tag : Tag) (pre mid post : List Block)
    (y : Float) (t : RunState ω) :
    part.Alike setting (pre ++ always tag mid :: post) (pre ++ (mid ++ post)) y t := by
  by_cases h : ∃ z u w v,
      runAll setting pre y t = (.value z, u) ∧ runAll setting mid z u = (.leave w, v)
  · obtain ⟨z, u, w, v, hpre, hmid⟩ := h
    obtain ⟨horiginal, hwrapped⟩ := runAll_always_of_leave hpre hmid tag post
    rw [Part.Alike, horiginal, hwrapped]
    cases part with
    | body => exact absurd rfl hpart
    | ifPart | elsePart => exact ⟨rfl, rfl⟩
  · refine Part.alike_of_eq (runAll_always ?_ tag post)
    intro z u hpre w v hmid
    exact absurd ⟨z, u, w, v, hpre, hmid⟩ h

end Block

/-! ## Programs -/

/-- Blocks in a list inside a program are put inside an if/else whose condition always holds. In a
section no run changes. In the body of a loop no run changes in which a break that leaves these
blocks always finds the program variable with the value that they began with. If it finds another
value, the body ends with that value, and with the blocks inside the if/else it ends with the one
that they began with, in the same state. -/
theorem Program.run_wrapped (p : Program) (a : ListAddress) (tag : Tag)
    (pre mid post : List Block) (hlist : p.listAt? a = some (pre ++ (mid ++ post))) :
    let q := p.withList a (pre ++ Block.always tag mid :: post)
    q.listAt? a = some (pre ++ Block.always tag mid :: post) ∧
      ∀ {ω : Type} (setting : Setting ω) (initial : Float) (channel : ω),
        ((a.part = .body → ∀ y t, p.Begins setting initial channel a y t →
          ∀ z u, Block.runAll setting pre y t = (.value z, u) →
            ∀ w v, Block.runAll setting mid z u = (.leave w, v) → w = z) →
          q.run setting initial channel = p.run setting initial channel) ∧
        ∀ y t z u, Block.runAll setting pre y t = (.value z, u) →
          ∀ w v, Block.runAll setting mid z u = (.leave w, v) →
            Block.runAll setting (pre ++ (mid ++ post)) y t = (.leave w, v) ∧
            Block.runAll setting (pre ++ Block.always tag mid :: post) y t = (.leave z, v) := by
  intro q
  refine ⟨listAt?_withList hlist _, fun setting initial channel => ⟨fun h => ?_, ?_⟩⟩
  · refine run_withList hlist fun y t hbegins => ?_
    by_cases hpart : a.part = .body
    · exact Block.Part.alike_of_eq (Block.runAll_always (h hpart y t hbegins) tag post)
    · exact Block.alike_always_of_ne_body hpart tag pre mid post y t
  · intro y t z u hpre w v hmid
    exact Block.runAll_always_of_leave hpre hmid tag post

/-- A loop with an assignment before its break. -/
def assignThenLeave : Program where
  slots := [
    some (.whileLoop { id := ⟨1⟩ } (some (.ofText "true")) [
      .action { id := ⟨2⟩ } (.statement (.ofText "x = 5")),
      .action { id := ⟨3⟩ } .leave])]

/-- If assignment and break are put inside an if/else, the assignment is lost. -/
theorem assignThenLeave_wrapped_ne :
    let a : ListAddress := ⟨⟨0, []⟩, .body⟩
    let mid : List Block := [.action { id := ⟨2⟩ } (.statement (.ofText "x = 5")),
      .action { id := ⟨3⟩ } .leave]
    let q := assignThenLeave.withList a ([] ++ Block.always { id := ⟨4⟩ } mid :: [])
    let setting := Setting.writing defaultIterationCap keepPiece
    assignThenLeave.listAt? a = some ([] ++ (mid ++ [])) ∧
      (assignThenLeave.run setting 0 []).value = 5 ∧ (q.run setting 0 []).value = 0 ∧
      (q.run setting 0 []).value ≠ (assignThenLeave.run setting 0 []).value := by
  intro a mid q setting
  exact ⟨rfl, by decide +kernel, by decide +kernel, by decide +kernel⟩

/-- A loop with a print block before its break, and with a statement on either side of them. -/
def printThenLeave : Program where
  slots := [
    some (.whileLoop { id := ⟨1⟩ } (some (.ofText "true")) [
      .action { id := ⟨2⟩ } (.statement (.ofText "x += 1")),
      .action { id := ⟨3⟩ } .print,
      .action { id := ⟨4⟩ } .leave,
      .action { id := ⟨5⟩ } (.statement (.ofText "x += 100"))])]

/-- Print block and break are put inside an if/else, and the statement before them keeps its
effect. -/
theorem printThenLeave_run_wrapped :
    let a : ListAddress := ⟨⟨0, []⟩, .body⟩
    let pre : List Block := [.action { id := ⟨2⟩ } (.statement (.ofText "x += 1"))]
    let mid : List Block := [.action { id := ⟨3⟩ } .print, .action { id := ⟨4⟩ } .leave]
    let post : List Block := [.action { id := ⟨5⟩ } (.statement (.ofText "x += 100"))]
    let q := printThenLeave.withList a (pre ++ Block.always { id := ⟨6⟩ } mid :: post)
    let setting := Setting.writing 100 keepPiece
    printThenLeave.listAt? a = some (pre ++ (mid ++ post)) ∧
      (a.part = .body → ∀ y t, printThenLeave.Begins setting 0 [] a y t →
        ∀ z u, Block.runAll setting pre y t = (.value z, u) →
          ∀ w v, Block.runAll setting mid z u = (.leave w, v) → w = z) ∧
      q.run setting 0 [] = printThenLeave.run setting 0 [] ∧
      (q.run setting 0 []).value = 1 ∧ (q.run setting 0 []).channel = ["1", "\n"] := by
  intro a pre mid post q setting
  have hlist : printThenLeave.listAt? a = some (pre ++ (mid ++ post)) := rfl
  have hkeeps : ∀ z (u : RunState (List String)) w v,
      Block.runAll setting mid z u = (.leave w, v) → w = z := by
    intro z u w v hmid
    simp only [mid, Block.runAll, Block.run, Action.run, Prod.mk.injEq, Ending.leave.injEq] at hmid
    exact hmid.1.symm
  have hwrapped := (printThenLeave.run_wrapped a { id := ⟨6⟩ } pre mid post hlist).2 setting 0 []
  refine ⟨hlist, fun _ y t _ z u _ => hkeeps z u, ?_, by decide +kernel, by decide +kernel⟩
  exact hwrapped.1 fun _ y t _ z u _ => hkeeps z u

end BlockLang
