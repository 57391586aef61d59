import BlockLang.Proofs.Run.Begins

/-!
# Breaks

A break ends the innermost loop around it and nothing else. Main statement: what comes after a
break in its list makes no difference to a run, and a loop in which a run comes to a break ends
with the value that the block of its body with the break in it began with.
-/

namespace BlockLang

variable {ω : Type} {setting : Setting ω}

namespace Block

variable {b : Block} {bs body : List Block} {x y z : Float}
  {s t u : RunState ω}

/-! ## Coming to a break -/

/-- A run of the blocks from `x` and `s` comes to a break that is in no loop among them: in the
list itself, or in the section that an if/else in the list has chosen. This block of the list began
with the value `y`, and the run comes to the break in the state `t`. -/
inductive Leaves (setting : Setting ω) :
    List Block → Float → RunState ω → Float → RunState ω → Prop
  | leave {pre tag post x s y t} :
    runAll setting pre x s = (.value y, t) →
    Leaves setting (pre ++ .action tag .leave :: post) x s y t
  | ifElse {pre tag condition ifPart elsePart post x s y t holds u z v} :
    runAll setting pre x s = (.value y, t) → t.test tag.id condition y = (holds, u) →
    Leaves setting (if holds then ifPart else elsePart) y u z v →
    Leaves setting (pre ++ .ifElse tag (some condition) ifPart elsePart :: post) x s y v

/-- A block that ends with a value can stand in front of blocks that are on the way out. -/
lemma Leaves.cons (hb : b.run setting x s = (.value y, t)) (h : Leaves setting bs y t z u) :
    Leaves setting (b :: bs) x s z u := by
  cases h with
  | leave hpre =>
    rw [← List.cons_append]
    exact .leave ((runAll_cons_of_value hb).trans hpre)
  | ifElse hpre ht h =>
    rw [← List.cons_append]
    exact .ifElse ((runAll_cons_of_value hb).trans hpre) ht h

/-- Blocks in which one comes to the way out are on the way out. -/
lemma Leaves.runAll_eq (h : Leaves setting bs x s y t) :
    runAll setting bs x s = (.leave y, t) := by
  induction h with
  | leave hpre =>
    rw [runAll_append_of_value hpre]
    exact runAll_cons_of_leave rfl
  | ifElse hpre ht _ ih =>
    rw [runAll_append_of_value hpre]
    refine runAll_cons_of_leave ?_
    rw [run_ifElse, ht]
    simp only [ih, Ending.backTo]

mutual

/-- A block that ends on the way out of a loop is a break or an if/else that comes to one. -/
theorem leaves_of_run (b : Block) {x y : Float} {s t : RunState ω}
    (h : b.run setting x s = (.leave y, t)) (post : List Block) :
    Leaves setting (b :: post) x s y t := by
  -- Nothing comes before the block, and the value that it ends with is the one it began with.
  show Leaves setting ([] ++ b :: post) x s y t
  have hy : y = x := (b.leave_run (congrArg Prod.fst h)).2
  subst hy
  cases b with
  | action tag a =>
    obtain ⟨rfl, -⟩ := Action.leave_run (congrArg Prod.fst h)
    cases h
    exact .leave rfl
  | forLoop tag headers body =>
    exact absurd ((Block.leave_run _ (congrArg Prod.fst h)).1) (by simp [canLeave])
  | whileLoop tag condition body =>
    exact absurd ((Block.leave_run _ (congrArg Prod.fst h)).1) (by simp [canLeave])
  | ifElse tag condition ifPart elsePart =>
    cases condition with
    | none => cases h
    | some condition =>
      rcases ht : s.test tag.id condition y with ⟨holds, u⟩
      rw [run_ifElse, ht] at h
      obtain ⟨hending, hstate⟩ := Prod.ext_iff.mp h
      obtain ⟨⟨z, hz⟩, -⟩ := Ending.eq_of_backTo_eq_leave hending
      have hsection : Leaves setting (if holds then ifPart else elsePart) y u z t := by
        cases holds with
        | false => exact leaves_of_runAll elsePart (Prod.ext hz hstate)
        | true => exact leaves_of_runAll ifPart (Prod.ext hz hstate)
      exact .ifElse rfl ht hsection

/-- If blocks are on the way out, one of them has come to it. -/
theorem leaves_of_runAll (bs : List Block) {x y : Float} {s t : RunState ω}
    (h : runAll setting bs x s = (.leave y, t)) : Leaves setting bs x s y t := by
  cases bs with
  | nil => cases h
  | cons b bs =>
    rcases hr : b.run setting x s with ⟨z | z | why, u⟩
    · rw [runAll_cons_of_value hr] at h
      exact (leaves_of_runAll bs h).cons hr
    · rw [runAll_cons_of_leave hr] at h
      cases h
      exact leaves_of_run b hr bs
    · rw [runAll_cons_of_interrupted hr] at h
      cases h

end

/-- Blocks end on the way out of a loop when they come to a break. -/
theorem runAll_eq_leave_iff :
    runAll setting bs x s = (.leave y, t) ↔ Leaves setting bs x s y t :=
  ⟨leaves_of_runAll bs, Leaves.runAll_eq⟩

/-! ## What a break does -/

/-- The blocks after a break are not run. -/
lemma runAll_leave (pre : List Block) (tag : Tag) (post post' : List Block) (x : Float)
    (s : RunState ω) :
    runAll setting (pre ++ .action tag .leave :: post) x s =
      runAll setting (pre ++ .action tag .leave :: post') x s :=
  runAll_append_congr fun _ _ _ =>
    (runAll_cons_of_leave rfl).trans (runAll_cons_of_leave rfl).symm

/-- The state in which a block leaves the one after its last pass: the counter of a for loop
goes. -/
def closed : Block → RunState ω → RunState ω
  | forLoop .., s => s.popScope
  | _, s => s

/-- A loop is never on the way out of a loop. -/
lemma run_ne_leave_of_loop (h : b.part? .body = some body) (x y : Float) (s : RunState ω) :
    (b.run setting x s).1 ≠ .leave y := by
  intro hleave
  have hcan := (b.leave_run hleave).1
  cases b with
  | action => cases h
  | forLoop => cases hcan
  | whileLoop => cases hcan
  | ifElse => cases h

/-- A loop ends with the pass in which its body comes to a break. -/
lemma run_of_leaves (hbody : b.part? .body = some body)
    (hbegins : b.BeginsPart setting x s .body y t) (hleaves : Leaves setting body y t z u) :
    b.run setting x s = (.value z, b.closed u) := by
  have hrun := hleaves.runAll_eq
  cases hbegins with
  | @forLoop tag init condition step _ _ _ _ _ hpass =>
    cases hbody
    have hleave : forPass setting step body y t = (.leave z, u) := by
      simp only [forPass, hrun]
    rw [run_forLoop, loop, repeatWhile_of_beginsPass_of_leave hpass hleave]
    rfl
  | whileLoop hpass =>
    cases hbody
    exact repeatWhile_of_beginsPass_of_leave hpass hrun

end Block

/-- What comes after a break in a list inside a program makes no difference to any run. A loop is
never itself on the way out of a loop, whatever its body is, and when a pass of it comes to a break
that is in no loop inside it, the loop ends there, with the value that the block of its body with
the break in it began with. -/
theorem Program.leave_ends_loop (p : Program) (a : ListAddress) :
    (∀ pre tag post post', p.listAt? a = some (pre ++ .action tag .leave :: post) →
      let q := p.withList a (pre ++ .action tag .leave :: post')
      q.listAt? a = some (pre ++ .action tag .leave :: post') ∧
        ∀ {ω : Type} (setting : Setting ω) (initial : Float) (channel : ω),
          q.run setting initial channel = p.run setting initial channel) ∧
    ∀ {ω : Type} (setting : Setting ω) (b : Block) (body : List Block),
      b.part? .body = some body → ∀ (x : Float) (s : RunState ω),
        (∀ y, (b.run setting x s).1 ≠ .leave y) ∧
        ∀ y t, b.BeginsPart setting x s .body y t → ∀ z u,
          (Block.runAll setting body y t = (.leave z, u) ↔
            Block.Leaves setting body y t z u) ∧
          (Block.Leaves setting body y t z u → b.run setting x s = (.value z, b.closed u)) := by
  constructor
  · intro pre tag post post' hlist q
    refine ⟨listAt?_withList hlist _, fun setting initial channel => ?_⟩
    exact run_withList hlist fun y t _ =>
      Block.Part.alike_of_eq (Block.runAll_leave pre tag post' post y t)
  · intro ω setting b body hbody x s
    refine ⟨fun y => Block.run_ne_leave_of_loop hbody x y s, fun y t hbegins z u => ?_⟩
    exact ⟨Block.runAll_eq_leave_iff, Block.run_of_leaves hbody hbegins⟩

/-- A for loop inside a while loop. The for loop has a break in a section after a print block, and
the while loop has one after the for loop. -/
def nestedBreaks : Program where
  slots := [
    some (.whileLoop { id := ⟨1⟩ } (some (.ofText "true")) [
      .forLoop { id := ⟨2⟩ } ⟨some ⟨"i", 0⟩, some (.ofText "i < 9"), some 1⟩ [
        .action { id := ⟨3⟩ } (.statement (.ofText "x += 1")),
        .ifElse { id := ⟨4⟩ } (some (.ofText "i == 2")) [
          .action { id := ⟨5⟩ } .print,
          .action { id := ⟨6⟩ } .leave,
          .action { id := ⟨7⟩ } (.statement (.ofText "x = )"))] []],
      .action { id := ⟨8⟩ } .print,
      .action { id := ⟨9⟩ } .leave])]

/-- A loop with a break in the section of an if/else, after a statement. -/
def breakInSection : Block :=
  .whileLoop { id := ⟨1⟩ } (some (.ofText "x < 9")) [
    .ifElse { id := ⟨2⟩ } (some (.ofText "x == 0")) [
      .action { id := ⟨3⟩ } (.statement (.ofText "x = 5")),
      .action { id := ⟨4⟩ } .leave] []]

/-- The statement after the first break of a program cannot be read, and no run says so. The
assignment before the break of a loop is gone when the loop has ended. -/
theorem nestedBreaks_leave_ends_loop :
    let a : ListAddress := ⟨⟨0, [(.body, 0), (.body, 1)]⟩, .ifPart⟩
    let pre : List Block := [.action { id := ⟨5⟩ } .print]
    let q := nestedBreaks.withList a (pre ++ .action { id := ⟨6⟩ } .leave :: [])
    let setting := Setting.writing 100 keepPiece
    nestedBreaks.listAt? a = some (pre ++ .action { id := ⟨6⟩ } .leave ::
        [.action { id := ⟨7⟩ } (.statement (.ofText "x = )"))]) ∧
      q.run setting 0 [] = nestedBreaks.run setting 0 [] ∧
      (nestedBreaks.run setting 0 []).value = 3 ∧
      (nestedBreaks.run setting 0 []).channel = ["3", "\n", "3", "\n"] ∧
      (nestedBreaks.run setting 0 []).diagnostics.length = 0 ∧
      ∃ u, breakInSection.run setting 0 { channel := [] } =
        (.value 0, breakInSection.closed u) := by
  intro a pre q setting
  have hlist : nestedBreaks.listAt? a = some (pre ++ .action { id := ⟨6⟩ } .leave ::
      [.action { id := ⟨7⟩ } (.statement (.ofText "x = )"))]) := rfl
  have hends := nestedBreaks.leave_ends_loop a
  refine ⟨hlist, (hends.1 pre { id := ⟨6⟩ } _ [] hlist).2 setting 0 [], by decide +kernel,
    by decide +kernel, by decide +kernel, ?_⟩
  -- The first pass of the loop begins, and its if/else chooses the section with the break.
  let s : RunState (List String) := { channel := [], checks := 1 }
  have htest : s.test ⟨1⟩ (.ofText "x < 9") 0 = (true, s) :=
    s.test_of_ok ⟨1⟩ (by decide +kernel : _ = Except.ok (Value.boolean true))
  have hsection : s.test ⟨2⟩ (.ofText "x == 0") 0 = (true, s) :=
    s.test_of_ok ⟨2⟩ (by decide +kernel : _ = Except.ok (Value.boolean true))
  have hexec : StatementCode.exec (.ofText "x = 5") 0 [] = Except.ok 5 := by decide +kernel
  have hassign : Block.runAll setting [.action { id := ⟨3⟩ } (.statement (.ofText "x = 5"))] 0 s =
      (.value 5, s) := by
    simp only [Block.runAll, Block.run, Action.run, s, hexec]
  have hbegins : breakInSection.BeginsPart setting 0 { channel := [] } .body 0 s :=
    .whileLoop (.first rfl htest)
  obtain ⟨-, hleaves⟩ := (hends.2 setting breakInSection _ rfl 0 _).2 0 s hbegins 0 s
  refine ⟨s, hleaves ?_⟩
  show Block.Leaves setting ([] ++ .ifElse _ _ _ _ :: []) 0 s 0 s
  exact .ifElse rfl hsection (.leave hassign)

end BlockLang
