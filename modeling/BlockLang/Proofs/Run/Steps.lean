import BlockLang.Run.Basic
import Mathlib.Tactic.Lemma

/-!
# Runs, block by block

One equation for each way a run can go through a block, and one rule for loops: a transitive
relation between states that every step of a loop respects holds between the states before and
after the whole loop.
-/

namespace BlockLang

variable {ω : Type} {setting : Setting ω}

/-! ## What changes in a state -/

namespace RunState

variable (s : RunState ω) (id : BlockId)

@[simp] lemma scopes_report (c : Complaint) : (s.report id c).scopes = s.scopes := rfl

@[simp] lemma diagnostics_report (c : Complaint) :
    (s.report id c).diagnostics = s.diagnostics.push ⟨id, c⟩ := rfl

@[simp] lemma scopes_pushScope (init : Init) :
    (s.pushScope init).scopes = ⟨init.counter, init.value⟩ :: s.scopes := rfl

@[simp] lemma scopes_popScope : s.popScope.scopes = s.scopes.tail := rfl

@[simp] lemma scopes_advance (step : Float) :
    (s.advance step).scopes = s.scopes.advance step := rfl

/-- A condition that has a value is tested by it. -/
lemma test_of_ok {code : ConditionCode} {x : Float} {v : Value}
    (h : code.eval x s.scopes = .ok v) : s.test id code x = (v.isTruthy, s) := by
  simp only [test, h]

/-- A condition that fails is reported and counts as false. -/
lemma test_of_error {code : ConditionCode} {x : Float} {error : ExprError}
    (h : code.eval x s.scopes = .error error) :
    s.test id code x = (false, s.report id (.expression error code.text)) := by
  simp only [test, h]

/-- Looking at a condition changes no counter. -/
@[simp] lemma scopes_test (code : ConditionCode) (x : Float) :
    (s.test id code x).2.scopes = s.scopes := by
  cases h : code.eval x s.scopes with
  | ok v => rw [test_of_ok s id h]
  | error e => rw [test_of_error s id h, scopes_report]

end RunState

/-! ## Counters -/

namespace Scopes

@[simp] lemma tail_advance (scopes : Scopes) (step : Float) :
    (scopes.advance step).tail = scopes.tail := by
  cases scopes <;> rfl

/-- A counter that is advanced keeps its name, as do all others. -/
@[simp] lemma names_advance (scopes : Scopes) (step : Float) :
    (scopes.advance step).map Scope.name = scopes.map Scope.name := by
  cases scopes <;> rfl

end Scopes

/-! ## Blocks -/

/-- How a section of an if/else ends as seen from outside: on the way out of a loop, the program
variable goes back to the value `x` it had before the section. -/
def Ending.backTo (x : Float) : Ending → Ending
  | leave _ => leave x
  | ending => ending

/-- One pass of a for loop: its body, and then the step of its counter. -/
def forPass (setting : Setting ω) (step : Float) (body : List Block) (x : Float)
    (s : RunState ω) : Ending × RunState ω :=
  match Block.runAll setting body x s with
  | (.value y, s) => (.value y, s.advance step)
  | stopped => stopped

namespace Block

variable {tag : Tag} {condition : ConditionCode} {body ifPart elsePart : List Block}
  {x : Float} {s : RunState ω}

lemma run_forLoop {init : Init} {step : Float} :
    run setting (.forLoop tag ⟨some init, some condition, some step⟩ body) x s =
      ((loop setting .forLoop tag.id condition (forPass setting step body) x (s.pushScope init)).1,
        (loop setting .forLoop tag.id condition (forPass setting step body) x
          (s.pushScope init)).2.popScope) := rfl

/-- A choice runs the part that its condition selects, and ends with it. -/
lemma run_ifElse :
    run setting (.ifElse tag (some condition) ifPart elsePart) x s =
      let (holds, t) := s.test tag.id condition x
      let (ending, u) := runAll setting (if holds then ifPart else elsePart) x t
      (ending.backTo x, u) := by
  simp only [run]
  obtain ⟨holds, t⟩ := s.test tag.id condition x
  cases holds
  · simp only [Bool.false_eq_true, if_false]
    obtain ⟨_ | _ | _, u⟩ := runAll setting elsePart x t <;> rfl
  · simp only [if_true]
    obtain ⟨_ | _ | _, u⟩ := runAll setting ifPart x t <;> rfl

/-- A for loop has all its headers, or one of them is missing. -/
lemma forLoop_complete_or_missing (tag : Tag) (headers : ForHeaders) (body : List Block) :
    (∃ init condition step, headers = ⟨some init, some condition, some step⟩) ∨
      (Block.forLoop tag headers body).missing ≠ [] := by
  obtain ⟨_ | init, _ | condition, _ | step⟩ := headers
  case some.some.some => exact .inl ⟨init, condition, step, rfl⟩
  all_goals exact .inr (by simp [missing, compoundKind?, CompoundKind.permitted, header?,
    condition?])

/-- A for loop in which a header is missing is reported and passed over. -/
lemma run_forLoop_of_missing {headers : ForHeaders}
    (h : (Block.forLoop tag headers body).missing ≠ []) :
    run setting (.forLoop tag headers body) x s =
      (.value x,
        s.report tag.id (.missingHeader .forLoop (Block.forLoop tag headers body).missing)) := by
  obtain ⟨_ | init, _ | condition, _ | step⟩ := headers
  case some.some.some =>
    simp [missing, compoundKind?, CompoundKind.permitted, header?, condition?] at h
  all_goals rfl

/-- After a block that ends with a value, the list goes on with this value. -/
lemma runAll_cons_of_value {b : Block} {bs : List Block} {y : Float} {t : RunState ω}
    (h : b.run setting x s = (.value y, t)) :
    runAll setting (b :: bs) x s = runAll setting bs y t := by
  simp only [runAll, h]

/-- After a block that leaves, the rest of the list is skipped. -/
lemma runAll_cons_of_leave {b : Block} {bs : List Block} {y : Float} {t : RunState ω}
    (h : b.run setting x s = (.leave y, t)) : runAll setting (b :: bs) x s = (.leave y, t) := by
  simp only [runAll, h]

/-- After a block that is interrupted, the rest of the list is skipped. -/
lemma runAll_cons_of_interrupted {b : Block} {bs : List Block} {why : Interruption}
    {t : RunState ω} (h : b.run setting x s = (.interrupted why, t)) :
    runAll setting (b :: bs) x s = (.interrupted why, t) := by
  simp only [runAll, h]

/-- The first block that does not end with a value ends the list. -/
lemma runAll_cons_of_stopped {b : Block} {bs : List Block}
    (h : ∀ y, (b.run setting x s).1 ≠ .value y) :
    runAll setting (b :: bs) x s = b.run setting x s := by
  rcases hr : b.run setting x s with ⟨ending, t⟩
  rw [hr] at h
  cases ending with
  | value y => exact absurd rfl (h y)
  | leave y => exact runAll_cons_of_leave hr
  | interrupted why => exact runAll_cons_of_interrupted hr

end Block

/-! ## Loops -/

section Loops

variable {test : Float → RunState ω → Bool × RunState ω}
  {body : Float → RunState ω → Ending × RunState ω} {atCap : RunState ω → RunState ω}

section Passes

variable {x y : Float} {s t u : RunState ω} {why : Interruption} {passes : Nat}

/-- A loop asks before each pass whether it is interrupted. -/
lemma repeatWhile_of_interrupted (hi : setting.interruption s.checks s.channel = some why) :
    repeatWhile setting test body atCap passes x s =
      (.interrupted why, { s with checks := s.checks + 1 }) := by
  rw [repeatWhile.eq_def]
  simp only [hi]

variable (hi : setting.interruption s.checks s.channel = none)

include hi

/-- A loop ends where its test fails. -/
lemma repeatWhile_of_false (ht : test x { s with checks := s.checks + 1 } = (false, t)) :
    repeatWhile setting test body atCap passes x s = (.value x, t) := by
  rw [repeatWhile.eq_def]
  simp only [hi, ht]

variable (ht : test x { s with checks := s.checks + 1 } = (true, t))

include ht

/-- A loop with no passes left ends with what is to be done at the cap. -/
lemma repeatWhile_zero_of_true :
    repeatWhile setting test body atCap 0 x s = (.value x, atCap t) := by
  rw [repeatWhile.eq_def]
  simp only [hi, ht]

/-- A pass that ends with a value is followed by the next. -/
lemma repeatWhile_succ_of_value (hb : body x t = (.value y, u)) :
    repeatWhile setting test body atCap (passes + 1) x s =
      repeatWhile setting test body atCap passes y u := by
  rw [repeatWhile.eq_def]
  simp only [hi, ht, hb]

/-- A pass that leaves ends the loop with the value it left with. -/
lemma repeatWhile_succ_of_leave (hb : body x t = (.leave y, u)) :
    repeatWhile setting test body atCap (passes + 1) x s = (.value y, u) := by
  rw [repeatWhile.eq_def]
  simp only [hi, ht, hb]

/-- A pass that is interrupted ends the loop. -/
lemma repeatWhile_succ_of_stopped (hb : body x t = (.interrupted why, u)) :
    repeatWhile setting test body atCap (passes + 1) x s = (.interrupted why, u) := by
  rw [repeatWhile.eq_def]
  simp only [hi, ht, hb]

end Passes

/-- A transitive relation that holds across the steps of a loop holds across the loop. -/
lemma repeatWhile_rel {R : RunState ω → RunState ω → Prop}
    (trans : ∀ {s t u}, R s t → R t u → R s u)
    (check : ∀ s, R s { s with checks := s.checks + 1 })
    (htest : ∀ x s, R s (test x s).2) (hbody : ∀ x s, R s (body x s).2)
    (hcap : ∀ s, R s (atCap s)) (passes : Nat) (x : Float) (s : RunState ω) :
    R s (repeatWhile setting test body atCap passes x s).2 := by
  have tested : ∀ {x s b t}, test x { s with checks := s.checks + 1 } = (b, t) → R s t := by
    intro x s b t h
    have ht := htest x { s with checks := s.checks + 1 }
    rw [h] at ht
    exact trans (check s) ht
  have passed : ∀ {x s e t}, body x s = (e, t) → R s t := by
    intro x s e t h
    have hb := hbody x s
    rwa [h] at hb
  fun_induction repeatWhile setting test body atCap passes x s with
  | case1 => exact check _
  | case2 _ _ _ _ _ h => exact tested h
  | case3 _ _ _ _ h => exact trans (tested h) (hcap _)
  | case4 _ _ _ _ h _ _ _ hb ih => exact trans (tested h) (trans (passed hb) ih)
  | case5 _ _ _ _ h _ _ _ hb => exact trans (tested h) (passed hb)
  | case6 _ _ _ _ h _ _ _ hb => exact trans (tested h) (passed hb)

/-- A loop is never itself on the way out of a loop. -/
lemma repeatWhile_ne_leave (passes : Nat) (x y : Float) (s : RunState ω) :
    (repeatWhile setting test body atCap passes x s).1 ≠ .leave y := by
  fun_induction repeatWhile setting test body atCap passes x s with
  | case4 _ _ _ _ _ _ _ _ _ ih => exact ih
  | _ => simp

end Loops

end BlockLang
