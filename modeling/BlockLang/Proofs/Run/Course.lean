import BlockLang.Proofs.Run.Interruption
import BlockLang.Proofs.Run.Log

/-!
# The course of a run

A run told step by step, as a relation with one rule for each thing that a run can do. A loop
counts its passes upwards in a machine word and compares the count with the cap; nothing bounds it
beforehand, so an evaluation is there only if it comes to an end. It keeps a log of what happened
and where. Main statements: everything there is to evaluate has an evaluation, and every evaluation
ends as the run does.
-/

namespace BlockLang

variable {ω : Type} {setting : Setting ω}

/-! ## Evaluations -/

/-- What a loop is apart from its body. A while loop has no step. -/
structure LoopHead where
  kind : CompoundKind
  id : BlockId
  condition : ConditionCode
  step : Option Float

namespace LoopHead

/-- The state in which the next pass begins. -/
def advance (head : LoopHead) (s : RunState ω) : RunState ω :=
  head.step.elim s s.advance

def test (head : LoopHead) (x : Float) (s : RunState ω) : Bool × RunState ω :=
  s.test head.id head.condition x

/-- The complaint about a loop that would go on at the cap. -/
def atCap (head : LoopHead) (setting : Setting ω) : Complaint :=
  .iterationCap head.kind setting.iterationCap

end LoopHead

/-- What can be evaluated: a block, the blocks of a part from an index on, or a loop that has begun
`counter` passes. -/
inductive Task where
  | block (b : Block)
  | blocks (part : Block.Part) (index : Nat) (bs : List Block)
  | loop (head : LoopHead) (body : List Block) (counter : UInt64)

/-- The state once the run has asked whether it has to stop. -/
def RunState.asked (s : RunState ω) : RunState ω :=
  { s with checks := s.checks + 1 }

/-- The diagnostics of `t` are those of `s` and after them `ds`. -/
def RunState.Reports (s t : RunState ω) (ds : List Diagnostic) : Prop :=
  t.diagnostics.toList = s.diagnostics.toList ++ ds

/-- A task is evaluated from a value of the program variable and a state, with a log of what
happens, and ends in a way and a state. -/
inductive Evaluates (setting : Setting ω) :
    Task → Float → RunState ω → Log → Ending × RunState ω → Prop
  | action {tag a x s ds} :
    s.Reports (a.run setting tag.id x s).2 ds →
    Evaluates setting (.block (.action tag a)) x s (⟨[], .begun⟩ :: Log.reports ds)
      (a.run setting tag.id x s)
  | missing {b kind x s} :
    b.compoundKind? = some kind → b.missing ≠ [] →
    Evaluates setting (.block b) x s
      (⟨[], .begun⟩ :: Log.reports [⟨b.id, .missingHeader kind b.missing⟩])
      (.value x, s.report b.id (.missingHeader kind b.missing))
  | forLoop {tag init condition step body x s log r} :
    Evaluates setting (.loop ⟨.forLoop, tag.id, condition, some step⟩ body 0) x (s.pushScope init)
      log r →
    Evaluates setting (.block (.forLoop tag ⟨some init, some condition, some step⟩ body)) x s
      (⟨[], .begun⟩ :: log) (r.1, r.2.popScope)
  | whileLoop {tag condition body x s log r} :
    Evaluates setting (.loop ⟨.whileLoop, tag.id, condition, none⟩ body 0) x s log r →
    Evaluates setting (.block (.whileLoop tag (some condition) body)) x s (⟨[], .begun⟩ :: log) r
  | ifElse {tag condition ifPart elsePart x s holds t ds log r} :
    s.test tag.id condition x = (holds, t) → s.Reports t ds →
    Evaluates setting (.blocks (if holds then .ifPart else .elsePart) 0
      (if holds then ifPart else elsePart)) x t log r →
    Evaluates setting (.block (.ifElse tag (some condition) ifPart elsePart)) x s
      (⟨[], .begun⟩ :: (Log.test ds holds ++ log)) (r.1.backTo x, r.2)
  | nil {part index x s} : Evaluates setting (.blocks part index []) x s [] (.value x, s)
  | next {part index b bs x s log y t more r} :
    Evaluates setting (.block b) x s log (.value y, t) →
    Evaluates setting (.blocks part (index + 1) bs) y t more r →
    Evaluates setting (.blocks part index (b :: bs)) x s (log.inside part index ++ more) r
  | stop {part index b bs x s log r} :
    Evaluates setting (.block b) x s log r → (∀ y, r.1 ≠ .value y) →
    Evaluates setting (.blocks part index (b :: bs)) x s (log.inside part index) r
  | interrupted {head body counter x s why} :
    setting.interruption s.checks s.channel = some why →
    Evaluates setting (.loop head body counter) x s [] (.interrupted why, s.asked)
  | finish {head body counter x s t ds} :
    setting.interruption s.checks s.channel = none →
    head.test x s.asked = (false, t) → s.Reports t ds →
    Evaluates setting (.loop head body counter) x s (Log.test ds false) (.value x, t)
  | capped {head body counter x s t ds} :
    setting.interruption s.checks s.channel = none →
    head.test x s.asked = (true, t) → s.Reports t ds →
    setting.iterationCap ≤ counter →
    Evaluates setting (.loop head body counter) x s
      (Log.test ds true ++ Log.reports [⟨head.id, head.atCap setting⟩])
      (.value x, t.report head.id (head.atCap setting))
  | pass {head body counter x s t ds log y u more r} :
    setting.interruption s.checks s.channel = none →
    head.test x s.asked = (true, t) → s.Reports t ds →
    counter < setting.iterationCap →
    Evaluates setting (.blocks .body 0 body) x t log (.value y, u) →
    Evaluates setting (.loop head body (counter + 1)) y (head.advance u) more r →
    Evaluates setting (.loop head body counter) x s
      (Log.test ds true ++ ⟨[], .passed (counter + 1)⟩ :: (log ++ more)) r
  | leave {head body counter x s t ds log y u} :
    setting.interruption s.checks s.channel = none →
    head.test x s.asked = (true, t) → s.Reports t ds →
    counter < setting.iterationCap →
    Evaluates setting (.blocks .body 0 body) x t log (.leave y, u) →
    Evaluates setting (.loop head body counter) x s
      (Log.test ds true ++ ⟨[], .passed (counter + 1)⟩ :: (log ++ [⟨[], .left⟩])) (.value y, u)
  | stopped {head body counter x s t ds log why u} :
    setting.interruption s.checks s.channel = none →
    head.test x s.asked = (true, t) → s.Reports t ds →
    counter < setting.iterationCap →
    Evaluates setting (.blocks .body 0 body) x t log (.interrupted why, u) →
    Evaluates setting (.loop head body counter) x s
      (Log.test ds true ++ ⟨[], .passed (counter + 1)⟩ :: log) (.interrupted why, u)

/-! ## Evaluations end as runs do -/

/-- One pass of a loop: its body, and then the step of its counter. -/
def LoopHead.pass (head : LoopHead) (setting : Setting ω) (body : List Block) (x : Float)
    (s : RunState ω) : Ending × RunState ω :=
  match Block.runAll setting body x s with
  | (.value y, t) => (.value y, head.advance t)
  | stopped => stopped

/-- What is left of a loop whose counter is at `counter`. -/
def LoopHead.run (head : LoopHead) (setting : Setting ω) (body : List Block) (counter : UInt64)
    (x : Float) (s : RunState ω) : Ending × RunState ω :=
  repeatWhile setting head.test (head.pass setting body)
    (·.report head.id (head.atCap setting)) (setting.iterationCap.toNat - counter.toNat) x s

def Task.run (setting : Setting ω) : Task → Float → RunState ω → Ending × RunState ω
  | block b => b.run setting
  | blocks _ _ bs => Block.runAll setting bs
  | loop head body counter => head.run setting body counter

namespace LoopHead

variable {head : LoopHead} {body : List Block} {x y : Float} {s t u : RunState ω}

/-- A pass that ends with a value moves the counter on. -/
lemma pass_of_value (h : Block.runAll setting body x s = (.value y, t)) :
    head.pass setting body x s = (.value y, head.advance t) := by
  simp only [pass, h]

/-- Any other pass leaves the counter. -/
lemma pass_of_stopped (h : ∀ y, (Block.runAll setting body x s).1 ≠ .value y) :
    head.pass setting body x s = Block.runAll setting body x s := by
  simp only [pass]
  rcases hr : Block.runAll setting body x s with ⟨_ | _ | _, t⟩
  · rw [hr] at h
    exact absurd rfl (h _)
  · rfl
  · rfl

/-- A while loop has nothing to add after a pass. -/
lemma pass_none (kind : CompoundKind) (id : BlockId) (condition : ConditionCode) :
    (⟨kind, id, condition, none⟩ : LoopHead).pass setting body = Block.runAll setting body := by
  funext x s
  simp only [pass]
  rcases Block.runAll setting body x s with ⟨_ | _ | _, t⟩ <;> rfl

lemma run_zero (head : LoopHead) (body : List Block) (x : Float) (s : RunState ω) :
    head.run setting body 0 x s =
      BlockLang.loop setting head.kind head.id head.condition (head.pass setting body) x s := rfl

end LoopHead

/-- Below the cap the next count is exact, and one pass fewer is left. -/
lemma sub_toNat_of_lt {cap counter : UInt64} (h : counter < cap) :
    (counter + 1).toNat = counter.toNat + 1 ∧
      cap.toNat - counter.toNat = (cap.toNat - (counter + 1).toNat) + 1 := by
  have hlt : counter.toNat < cap.toNat := UInt64.lt_iff_toNat_lt.mp h
  have hcap : cap.toNat < 2 ^ 64 := cap.toNat_lt
  have hnext : (counter + 1).toNat = counter.toNat + 1 := by
    rw [UInt64.toNat_add]
    show (counter.toNat + 1) % 2 ^ 64 = counter.toNat + 1
    omega
  omega

/-- Every evaluation ends as the run does. -/
theorem Evaluates.eq_run {task : Task} {x : Float} {s : RunState ω} {log : Log}
    {r : Ending × RunState ω} (h : Evaluates setting task x s log r) :
    r = task.run setting x s := by
  induction h with
  | action => rfl
  | @missing b kind x s hk hm =>
    cases b with
    | action => cases hk
    | forLoop tag headers body =>
      cases hk
      exact (Block.run_forLoop_of_missing hm).symm
    | whileLoop tag condition body =>
      cases hk
      cases condition with
      | none => rfl
      | some condition => exact absurd rfl hm
    | ifElse tag condition ifPart elsePart =>
      cases hk
      cases condition with
      | none => rfl
      | some condition => exact absurd rfl hm
  | forLoop _ ih =>
    subst ih
    rfl
  | whileLoop _ ih =>
    rw [ih, Task.run, Task.run, LoopHead.run_zero, LoopHead.pass_none]
    rfl
  | ifElse ht _ _ ih =>
    rw [ih, Task.run, Task.run, Block.run_ifElse, ht]
  | nil => rfl
  | next _ _ ihb ih =>
    rw [ih]
    exact (Block.runAll_cons_of_value ihb.symm).symm
  | stop _ hne ih =>
    rw [ih] at hne ⊢
    exact (Block.runAll_cons_of_stopped hne).symm
  | interrupted hi => exact (repeatWhile_of_interrupted hi).symm
  | finish hi ht => exact (repeatWhile_of_false hi ht).symm
  -- The passes that are left are those up to the cap, counted from the counter.
  | @capped head body counter x s t ds hi ht _ hcap =>
    have hzero : setting.iterationCap.toNat - counter.toNat = 0 :=
      Nat.sub_eq_zero_of_le (UInt64.le_iff_toNat_le.mp hcap)
    rw [Task.run, LoopHead.run, hzero, repeatWhile_zero_of_true hi ht]
  | @pass head body counter _ _ _ _ _ _ _ _ _ hi ht _ hlt _ _ ihb ih =>
    have hsucc := (sub_toNat_of_lt hlt).2
    rw [Task.run, LoopHead.run, hsucc,
      repeatWhile_succ_of_value hi ht (LoopHead.pass_of_value ihb.symm)]
    exact ih
  | @leave head body counter x s t _ _ y u hi ht _ hlt _ ihb =>
    have hsucc := (sub_toNat_of_lt hlt).2
    have hpass : head.pass setting body x t = (.leave y, u) := by
      rw [LoopHead.pass_of_stopped] <;> rw [show Block.runAll setting body x t = _ from ihb.symm]
      simp
    rw [Task.run, LoopHead.run, hsucc, repeatWhile_succ_of_leave hi ht hpass]
  | @stopped head body counter x s t _ _ why u hi ht _ hlt _ ihb =>
    have hsucc := (sub_toNat_of_lt hlt).2
    have hpass : head.pass setting body x t = (.interrupted why, u) := by
      rw [LoopHead.pass_of_stopped] <;> rw [show Block.runAll setting body x t = _ from ihb.symm]
      simp
    rw [Task.run, LoopHead.run, hsucc, repeatWhile_succ_of_stopped hi ht hpass]

/-! ## Everything has an evaluation -/

/-- A later state has reports after those of an earlier one. -/
lemma RunState.exists_reports {s t : RunState ω} (h : Later setting s t) :
    ∃ ds, s.Reports t ds := by
  obtain ⟨ds, hds⟩ := h.diagnostics
  exact ⟨ds, hds.symm⟩

/-- A loop whose body has evaluations has one from every count on, by the passes that are left. -/
theorem LoopHead.exists_evaluates (head : LoopHead) {body : List Block}
    (hbody : ∀ x s, ∃ log, Evaluates setting (.blocks .body 0 body) x s log
      (Block.runAll setting body x s)) (counter : UInt64) (x : Float) (s : RunState ω) :
    ∃ log r, Evaluates setting (.loop head body counter) x s log r := by
  cases hi : setting.interruption s.checks s.channel with
  | some why => exact ⟨_, _, .interrupted hi⟩
  | none =>
    rcases ht : head.test x s.asked with ⟨holds, t⟩
    obtain ⟨ds, hds⟩ : ∃ ds, s.Reports t ds := by
      have hlater : Later setting s.asked (head.test x s.asked).2 := Later.test _ _ x s.asked
      rw [ht] at hlater
      have hasked : Later setting s s.asked := .of_eq rfl rfl
      exact RunState.exists_reports (hasked.trans hlater)
    cases holds with
    | false => exact ⟨_, _, .finish hi ht hds⟩
    | true =>
      -- The recursion is on the passes that are left up to the cap.
      by_cases hlt : counter < setting.iterationCap
      · obtain ⟨log, hlog⟩ := hbody x t
        rcases hr : Block.runAll setting body x t with ⟨y | y | why, u⟩ <;> rw [hr] at hlog
        · -- Nothing in the state gets smaller, only the passes that are left.
          have hleft := (sub_toNat_of_lt hlt).2
          obtain ⟨more, r, hmore⟩ := head.exists_evaluates hbody (counter + 1) y (head.advance u)
          exact ⟨_, _, .pass hi ht hds hlt hlog hmore⟩
        · exact ⟨_, _, .leave hi ht hds hlt hlog⟩
        · exact ⟨_, _, .stopped hi ht hds hlt hlog⟩
      · exact ⟨_, _, .capped hi ht hds (UInt64.not_lt.mp hlt)⟩
termination_by setting.iterationCap.toNat - counter.toNat
decreasing_by omega

mutual

/-- Every block has an evaluation. -/
theorem Block.exists_evaluates (b : Block) (x : Float) (s : RunState ω) :
    ∃ log r, Evaluates setting (.block b) x s log r := by
  cases b with
  | action tag a =>
    have hlater : Later setting s (a.run setting tag.id x s).2 := Later.run (.action tag a) x s
    obtain ⟨ds, hds⟩ := RunState.exists_reports hlater
    exact ⟨_, _, .action hds⟩
  | forLoop tag headers body =>
    rcases forLoop_complete_or_missing tag headers body with ⟨init, condition, step, rfl⟩ | hm
    · obtain ⟨log, r, hlog⟩ := LoopHead.exists_evaluates ⟨.forLoop, tag.id, condition, some step⟩
        (Block.exists_evaluates_runAll body .body 0) 0 x (s.pushScope init)
      exact ⟨_, _, .forLoop hlog⟩
    · exact ⟨_, _, .missing rfl hm⟩
  | whileLoop tag condition body =>
    cases condition with
    | none => exact ⟨_, _, .missing rfl (List.cons_ne_nil _ _)⟩
    | some condition =>
      obtain ⟨log, r, hlog⟩ := LoopHead.exists_evaluates ⟨.whileLoop, tag.id, condition, none⟩
        (Block.exists_evaluates_runAll body .body 0) 0 x s
      exact ⟨_, _, .whileLoop hlog⟩
  | ifElse tag condition ifPart elsePart =>
    cases condition with
    | none => exact ⟨_, _, .missing rfl (List.cons_ne_nil _ _)⟩
    | some condition =>
      have hlater : Later setting s (s.test tag.id condition x).2 := Later.test tag.id condition x s
      obtain ⟨ds, hds⟩ := RunState.exists_reports hlater
      rcases ht : s.test tag.id condition x with ⟨_ | _, t⟩ <;> rw [ht] at hds
      · obtain ⟨log, hlog⟩ := Block.exists_evaluates_runAll elsePart .elsePart 0 x t
        exact ⟨_, _, .ifElse ht hds hlog⟩
      · obtain ⟨log, hlog⟩ := Block.exists_evaluates_runAll ifPart .ifPart 0 x t
        exact ⟨_, _, .ifElse ht hds hlog⟩

theorem Block.exists_evaluates_runAll (bs : List Block) (part : Block.Part) (index : Nat)
    (x : Float) (s : RunState ω) :
    ∃ log, Evaluates setting (.blocks part index bs) x s log (Block.runAll setting bs x s) := by
  cases bs with
  | nil => exact ⟨_, .nil⟩
  | cons b bs =>
    obtain ⟨log, r, hlog⟩ := Block.exists_evaluates b x s
    obtain rfl : r = b.run setting x s := hlog.eq_run
    rcases hr : b.run setting x s with ⟨y | y | why, t⟩ <;> rw [hr] at hlog
    · obtain ⟨more, hmore⟩ := Block.exists_evaluates_runAll bs part (index + 1) y t
      rw [runAll_cons_of_value hr]
      exact ⟨_, .next hlog hmore⟩
    · rw [runAll_cons_of_leave hr]
      exact ⟨_, .stop hlog (by simp)⟩
    · rw [runAll_cons_of_interrupted hr]
      exact ⟨_, .stop hlog (by simp)⟩

end

/-- Everything there is to evaluate has an evaluation, which ends as the run does. -/
theorem Task.exists_evaluates (setting : Setting ω) (task : Task) (x : Float) (s : RunState ω) :
    ∃ log, Evaluates setting task x s log (task.run setting x s) := by
  cases task with
  | blocks part index bs => exact Block.exists_evaluates_runAll bs part index x s
  | block b =>
    obtain ⟨log, r, hlog⟩ : ∃ log r, Evaluates setting (.block b) x s log r :=
      b.exists_evaluates x s
    exact ⟨log, hlog.eq_run ▸ hlog⟩
  | loop head body counter =>
    obtain ⟨log, r, hlog⟩ : ∃ log r, Evaluates setting (.loop head body counter) x s log r :=
      head.exists_evaluates (Block.exists_evaluates_runAll body .body 0) counter x s
    exact ⟨log, hlog.eq_run ▸ hlog⟩

/-! ## Programs -/

/-- The blocks in the slots of a program are evaluated one after the other, each with a log. -/
inductive EvaluatesSlots (setting : Setting ω) :
    List Block → Float → RunState ω → List Log → Outcome ω → Prop
  | nil {x s} : EvaluatesSlots setting [] x s [] ⟨x, none, s⟩
  | next {b bs x s log y t logs o} :
    Evaluates setting (.block b) x s log (.value y, t) →
    EvaluatesSlots setting bs y t logs o →
    EvaluatesSlots setting (b :: bs) x s (log :: logs) o
  | leave {b bs x s log y t logs o} :
    Evaluates setting (.block b) x s log (.leave y, t) →
    EvaluatesSlots setting bs x (t.report b.id .leaveOutsideLoop) logs o →
    EvaluatesSlots setting (b :: bs) x s (log :: logs) o
  | interrupted {b bs x s log why t} :
    Evaluates setting (.block b) x s log (.interrupted why, t) →
    EvaluatesSlots setting (b :: bs) x s [log] ⟨x, some why, t.report b.id (.interrupted why)⟩

/-- Every evaluation of slots ends as the run of the slots does. -/
theorem EvaluatesSlots.eq_runSlots {bs : List Block} {x : Float} {s : RunState ω}
    {logs : List Log} {o : Outcome ω} (h : EvaluatesSlots setting bs x s logs o) :
    o = Program.runSlots setting bs x s := by
  induction h with
  | nil => rfl
  | next hb _ ih =>
    have hr := hb.eq_run.symm
    rw [Task.run] at hr
    rw [Program.runSlots, hr]
    exact ih
  | leave hb _ ih =>
    have hr := hb.eq_run.symm
    rw [Task.run] at hr
    rw [Program.runSlots, hr]
    exact ih
  | interrupted hb =>
    have hr := hb.eq_run.symm
    rw [Task.run] at hr
    rw [Program.runSlots, hr]

/-- So have the blocks in slots, and it ends as the run does. -/
theorem Program.exists_evaluatesSlots (bs : List Block) (x : Float) (s : RunState ω) :
    ∃ logs, EvaluatesSlots setting bs x s logs (runSlots setting bs x s) := by
  induction bs generalizing x s with
  | nil => exact ⟨_, .nil⟩
  | cons b bs ih =>
    obtain ⟨log, hlog⟩ := (Task.block b).exists_evaluates setting x s
    rw [Task.run] at hlog
    rw [runSlots]
    rcases hr : b.run setting x s with ⟨y | y | why, t⟩ <;> rw [hr] at hlog
    · obtain ⟨logs, hlogs⟩ := ih y t
      exact ⟨_, .next hlog hlogs⟩
    · obtain ⟨logs, hlogs⟩ := ih x (t.report b.id .leaveOutsideLoop)
      exact ⟨_, .leave hlog hlogs⟩
    · exact ⟨_, .interrupted hlog⟩

end BlockLang
