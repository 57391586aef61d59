import BlockLang.Proofs.Run.Steps
import BlockLang.Run.Buffer
import Mathlib.Logic.Function.Iterate

/-!
# The counters of loops

Every block leaves the counters as it found them, however it ends. So the counter of a for loop
moves by the step of the loop and by nothing else: when the loop looks at its condition for the
`k`-th time, counted from 0, the step has been added `k` times.
-/

namespace BlockLang

variable {ω : Type} {setting : Setting ω}

/-! ## Counters after a block -/

/-- To write does not change the counters. -/
@[simp] lemma RunState.scopes_write (id : BlockId) (pieces : List String) (s : RunState ω) :
    (s.write setting id pieces).scopes = s.scopes := by
  induction pieces generalizing s with
  | nil => rfl
  | cons piece pieces ih =>
    simp only [write]
    split
    · rw [ih]
    · rfl

/-- A block without others inside does not change the counters. -/
lemma Action.scopes_run (id : BlockId) (x : Float) (s : RunState ω) (a : Action) :
    (a.run setting id x s).2.scopes = s.scopes := by
  cases a with
  | statement code => simp only [run]; split <;> rfl
  | print => simp only [run, RunState.scopes_write]
  | leave => rfl
  | addCounter name => simp only [run]; split <;> rfl

/-- A loop whose body keeps the counters keeps them too. -/
lemma scopes_loop {kind : CompoundKind} {id : BlockId} {condition : ConditionCode}
    {body : Float → RunState ω → Ending × RunState ω}
    (hbody : ∀ x s, (body x s).2.scopes = s.scopes) (x : Float) (s : RunState ω) :
    (loop setting kind id condition body x s).2.scopes = s.scopes := by
  refine repeatWhile_rel (R := fun s t => t.scopes = s.scopes) ?_ ?_ ?_ hbody ?_ _ x s
  · intro s t u hst htu
    rw [htu, hst]
  · exact fun _ => rfl
  · exact fun x s => s.scopes_test id condition x
  · exact fun _ => rfl

/-- What is below the innermost counter stays if the body of a loop and its step keep it. -/
lemma scopes_tail_loop {kind : CompoundKind} {id : BlockId} {condition : ConditionCode}
    {body : Float → RunState ω → Ending × RunState ω}
    (hbody : ∀ x s, (body x s).2.scopes.tail = s.scopes.tail) (x : Float) (s : RunState ω) :
    (loop setting kind id condition body x s).2.scopes.tail = s.scopes.tail := by
  refine repeatWhile_rel (R := fun s t => t.scopes.tail = s.scopes.tail) ?_ ?_ ?_ hbody ?_ _ x s
  · intro s t u hst htu
    rw [htu, hst]
  · exact fun _ => rfl
  · intro x s
    rw [s.scopes_test id condition x]
  · exact fun _ => rfl

/-- A pass of a for loop changes no counter but its own. -/
lemma scopes_tail_forPass {step : Float} {body : List Block}
    (hbody : ∀ x s, (Block.runAll setting body x s).2.scopes = s.scopes) (x : Float)
    (s : RunState ω) : (forPass setting step body x s).2.scopes.tail = s.scopes.tail := by
  have hb := hbody x s
  simp only [forPass]
  rcases hr : Block.runAll setting body x s with ⟨ending, t⟩
  rw [hr] at hb
  cases ending with
  | value y => rw [RunState.scopes_advance, Scopes.tail_advance, hb]
  | leave y => rw [hb]
  | interrupted why => rw [hb]

mutual

/-- A block leaves the counters as it found them. -/
theorem Block.scopes_run (b : Block) (x : Float) (s : RunState ω) :
    (b.run setting x s).2.scopes = s.scopes := by
  cases b with
  | action tag a => exact a.scopes_run tag.id x s
  | forLoop tag headers body =>
    rcases forLoop_complete_or_missing tag headers body with ⟨init, condition, step, rfl⟩ | h
    · rw [run_forLoop, RunState.scopes_popScope,
        scopes_tail_loop (scopes_tail_forPass (Block.scopes_runAll body))]
      rfl
    · rw [run_forLoop_of_missing h, RunState.scopes_report]
  | whileLoop tag condition body =>
    cases condition with
    | none => rfl
    | some condition => exact scopes_loop (Block.scopes_runAll body) x s
  | ifElse tag condition ifPart elsePart =>
    cases condition with
    | none => rfl
    | some condition =>
      have ht := s.scopes_test tag.id condition x
      rw [run_ifElse]
      rcases hr : s.test tag.id condition x with ⟨holds, t⟩
      rw [hr] at ht
      cases holds
      · exact (Block.scopes_runAll elsePart x t).trans ht
      · exact (Block.scopes_runAll ifPart x t).trans ht

theorem Block.scopes_runAll (bs : List Block) (x : Float) (s : RunState ω) :
    (Block.runAll setting bs x s).2.scopes = s.scopes := by
  cases bs with
  | nil => rfl
  | cons b bs =>
    have hb := Block.scopes_run b x s
    rcases hr : b.run setting x s with ⟨ending, t⟩
    rw [hr] at hb
    cases ending with
    | value y => rw [runAll_cons_of_value hr, Block.scopes_runAll bs y t, hb]
    | leave y => rw [runAll_cons_of_leave hr, hb]
    | interrupted why => rw [runAll_cons_of_interrupted hr, hb]

end

/-! ## Looking at a condition -/

section Tests

variable {test test' : Float → RunState ω → Bool × RunState ω}
  {body : Float → RunState ω → Ending × RunState ω} {atCap : RunState ω → RunState ω}

/-- The times a loop looks at its condition, each with the program variable and the state. -/
def tests (setting : Setting ω) (test : Float → RunState ω → Bool × RunState ω)
    (body : Float → RunState ω → Ending × RunState ω) (passes : Nat) (x : Float)
    (s : RunState ω) : List (Float × RunState ω) :=
  match setting.interruption s.checks s.channel with
  | some _ => []
  | none =>
    (x, { s with checks := s.checks + 1 }) ::
      match test x { s with checks := s.checks + 1 } with
      | (false, _) => []
      | (true, s) =>
        match passes with
        | 0 => []
        | passes + 1 =>
          match body x s with
          | (.value y, s) => tests setting test body passes y s
          | _ => []

section Passes

variable {x y : Float} {s t u : RunState ω} {passes : Nat}

/-- A loop that is stopped looks at its condition no more. -/
lemma tests_of_interrupted {why : Interruption}
    (hi : setting.interruption s.checks s.channel = some why) :
    tests setting test body passes x s = [] := by
  rw [tests.eq_def]
  simp only [hi]

variable (hi : setting.interruption s.checks s.channel = none)

include hi

/-- A condition that does not hold is looked at once. -/
lemma tests_of_false (ht : test x { s with checks := s.checks + 1 } = (false, t)) :
    tests setting test body passes x s = [(x, { s with checks := s.checks + 1 })] := by
  rw [tests.eq_def]
  simp only [hi, ht]

/-- Unless the run is stopped, the loop looks at its condition at least once. -/
lemma tests_eq_cons :
    ∃ later, tests setting test body passes x s =
      (x, { s with checks := s.checks + 1 }) :: later := by
  rw [tests.eq_def]
  simp only [hi]
  exact ⟨_, rfl⟩

variable (ht : test x { s with checks := s.checks + 1 } = (true, t))

include ht

/-- At the cap the condition is looked at for the last time. -/
lemma tests_zero_of_true :
    tests setting test body 0 x s = [(x, { s with checks := s.checks + 1 })] := by
  rw [tests.eq_def]
  simp only [hi, ht]

/-- After a pass that ends with a value the condition is looked at again. -/
lemma tests_succ_of_value (hb : body x t = (.value y, u)) :
    tests setting test body (passes + 1) x s =
      (x, { s with checks := s.checks + 1 }) :: tests setting test body passes y u := by
  rw [tests.eq_def]
  simp only [hi, ht, hb]

/-- After any other pass it is not. -/
lemma tests_succ_of_stopped (hb : ∀ y, (body x t).1 ≠ .value y) :
    tests setting test body (passes + 1) x s = [(x, { s with checks := s.checks + 1 })] := by
  rw [tests.eq_def]
  simp only [hi, ht]
  rcases hr : body x t with ⟨ending, u⟩
  rw [hr] at hb
  cases ending with
  | value y => exact absurd rfl (hb y)
  | leave y => rfl
  | interrupted why => rfl

end Passes

/-- The condition is looked at first with what the loop begins with. -/
lemma eq_of_getElem?_tests_zero {x : Float} {s : RunState ω} {passes : Nat}
    {p : Float × RunState ω} (h : (tests setting test body passes x s)[0]? = some p) :
    p = (x, { s with checks := s.checks + 1 }) := by
  cases hi : setting.interruption s.checks s.channel with
  | some why =>
    rw [tests_of_interrupted hi] at h
    cases h
  | none =>
    obtain ⟨later, hl⟩ : ∃ later, tests setting test body passes x s = _ :: later :=
      tests_eq_cons hi
    rw [hl] at h
    exact (Option.some.inj h).symm

/-- A loop that looks at its condition again has made a pass in between. -/
lemma exists_pass_of_getElem?_tests {x : Float} {s : RunState ω} {passes k : Nat}
    {p : Float × RunState ω}
    (h : (tests setting test body passes x s)[k + 1]? = some p) :
    ∃ rest t y u, test x { s with checks := s.checks + 1 } = (true, t) ∧
      body x t = (.value y, u) ∧ (tests setting test body rest y u)[k]? = some p := by
  cases hi : setting.interruption s.checks s.channel with
  | some why =>
    rw [tests_of_interrupted hi] at h
    cases h
  | none =>
    rcases ht : test x { s with checks := s.checks + 1 } with ⟨_ | _, t⟩
    · rw [tests_of_false hi ht] at h
      cases h
    cases passes with
    | zero =>
      rw [tests_zero_of_true hi ht] at h
      cases h
    | succ passes =>
      -- Only a pass that ends with a value is followed by another test.
      by_cases hb : ∃ y, (body x t).1 = .value y
      · obtain ⟨y, hb⟩ := hb
        have hy : body x t = (.value y, (body x t).2) := Prod.ext hb rfl
        rw [tests_succ_of_value hi ht hy] at h
        exact ⟨passes, t, y, _, rfl, hy, h⟩
      · rw [tests_succ_of_stopped hi ht (not_exists.mp hb)] at h
        cases h

/-- These are all the times: a test that answers as the loop's own at each of them can take its
place. -/
theorem repeatWhile_congr_test (passes : Nat) (x : Float) (s : RunState ω)
    (h : ∀ p ∈ tests setting test body passes x s, test' p.1 p.2 = test p.1 p.2) :
    repeatWhile setting test' body atCap passes x s =
      repeatWhile setting test body atCap passes x s := by
  have first {passes : Nat} {x : Float} {s : RunState ω}
      (hi : setting.interruption s.checks s.channel = none)
      (h : ∀ p ∈ tests setting test body passes x s, test' p.1 p.2 = test p.1 p.2) :
      test' x { s with checks := s.checks + 1 } = test x { s with checks := s.checks + 1 } := by
    obtain ⟨later, hl⟩ := tests_eq_cons hi
    rw [hl] at h
    exact h _ List.mem_cons_self
  fun_induction repeatWhile setting test body atCap passes x s with
  | case1 _ _ _ why hi => exact repeatWhile_of_interrupted hi
  | case2 _ _ _ hi _ ht => exact repeatWhile_of_false hi ((first hi h).trans ht)
  | case3 _ _ hi _ ht => exact repeatWhile_zero_of_true hi ((first hi h).trans ht)
  | case4 _ _ hi _ ht passes y u hb ih =>
    rw [repeatWhile_succ_of_value hi ((first hi h).trans ht) hb]
    rw [tests_succ_of_value hi ht hb] at h
    exact ih fun p hp => h p (List.mem_cons_of_mem _ hp)
  | case5 _ _ hi _ ht _ _ _ hb => exact repeatWhile_succ_of_leave hi ((first hi h).trans ht) hb
  | case6 _ _ hi _ ht _ _ _ hb => exact repeatWhile_succ_of_stopped hi ((first hi h).trans ht) hb

end Tests

/-- The times a for loop with all its headers looks at its condition. -/
def forTests (setting : Setting ω) (tag : Tag) (init : Init) (condition : ConditionCode)
    (step : Float) (body : List Block) (x : Float) (s : RunState ω) :
    List (Float × RunState ω) :=
  tests setting (RunState.test tag.id condition) (forPass setting step body)
    setting.iterationCap.toNat x (s.pushScope init)

/-- Runs a for loop that asks `test` in place of its condition. -/
def forTesting (setting : Setting ω) (test : Float → RunState ω → Bool × RunState ω) (tag : Tag)
    (init : Init) (step : Float) (body : List Block) (x : Float) (s : RunState ω) :
    Ending × RunState ω :=
  let (ending, t) := repeatWhile setting test (forPass setting step body)
    (·.report tag.id (.iterationCap .forLoop setting.iterationCap)) setting.iterationCap.toNat x
    (s.pushScope init)
  (ending, t.popScope)

/-- A pass that goes on has added the step once, to the counter that the body has kept. -/
lemma scopes_of_forPass {step value y : Float} {body : List Block} {name : String} {outer : Scopes}
    {x : Float} {s t : RunState ω} (hs : s.scopes = ⟨name, value⟩ :: outer)
    (h : forPass setting step body x s = (.value y, t)) :
    t.scopes = ⟨name, value + step⟩ :: outer := by
  have hb : (Block.runAll setting body x s).2.scopes = s.scopes := Block.scopes_runAll body x s
  rw [forPass] at h
  rcases hr : Block.runAll setting body x s with ⟨_ | _ | _, u⟩
  · rw [hr] at h hb
    cases h
    -- The step goes to the innermost counter, which is again that of this loop.
    rw [RunState.scopes_advance, hb, hs]
    rfl
  · rw [hr] at h
    cases h
  · rw [hr] at h
    cases h

/-- From a counter at `value`, the counter is `k` steps on at the `k`-th test. -/
lemma scopes_getElem?_tests {id : BlockId} {condition : ConditionCode} {step : Float}
    {body : List Block} {name : String} {outer : Scopes} {value y : Float} {t : RunState ω}
    {passes k : Nat} {x : Float} {s : RunState ω} (hs : s.scopes = ⟨name, value⟩ :: outer)
    (h : (tests setting (RunState.test id condition) (forPass setting step body)
      passes x s)[k]? = some (y, t)) :
    t.scopes = ⟨name, (· + step)^[k] value⟩ :: outer := by
  induction k generalizing passes x s value with
  | zero =>
    cases eq_of_getElem?_tests_zero h
    exact hs
  | succ k ih =>
    obtain ⟨rest, u, z, v, ht, hp, hrest⟩ := exists_pass_of_getElem?_tests h
    have hu : u.scopes = ⟨name, value⟩ :: outer := by
      have hkept := RunState.scopes_test { s with checks := s.checks + 1 } id condition x
      rw [ht] at hkept
      exact hkept.trans hs
    rw [Function.iterate_succ_apply]
    exact ih (scopes_of_forPass hu hp) hrest

/-- No block changes a counter: every block ends, in whatever way, with the counters it began with.
A for loop looks at its condition at the times `forTests` and at no others, so that nothing is
changed by another test that agrees with the condition there; and when it does so for the `k`-th
time, its own counter is the initial value with the step added `k` times, above the counters of the
loops around it. -/
theorem scopes_run_and_counter_at_tests (setting : Setting ω) :
    (∀ (b : Block) (x : Float) (s : RunState ω), (b.run setting x s).2.scopes = s.scopes) ∧
      ∀ (tag : Tag) (init : Init) (condition : ConditionCode) (step : Float) (body : List Block)
        (x : Float) (s : RunState ω),
        (∀ test, (∀ p ∈ forTests setting tag init condition step body x s,
            test p.1 p.2 = RunState.test tag.id condition p.1 p.2) →
          forTesting setting test tag init step body x s =
            (Block.forLoop tag ⟨some init, some condition, some step⟩ body).run setting x s) ∧
        ∀ (k : Nat) (y : Float) (t : RunState ω),
          (forTests setting tag init condition step body x s)[k]? = some (y, t) →
            t.scopes = ⟨init.counter, (· + step)^[k] init.value⟩ :: s.scopes := by
  refine ⟨fun b x s => b.scopes_run x s, fun tag init condition step body x s => ⟨?_, ?_⟩⟩
  · intro test h
    rw [forTesting, Block.run_forLoop, loop, repeatWhile_congr_test _ _ _ h]
  · intro k y t h
    exact scopes_getElem?_tests (RunState.scopes_pushScope s init) h

/-- The body of a loop over `i`, in which another loop has a counter of the same name. -/
def shadowing : List Block :=
  [.forLoop ⟨⟨2⟩, false, 0⟩ ⟨some ⟨"i", 7⟩, some (.ofText "!true"), some 5⟩
      [.action ⟨⟨3⟩, false, 0⟩ .print],
    .action ⟨⟨4⟩, false, 0⟩ .print]

/-- The inner loop has a counter of the same name, which leaves the outer one as it is. -/
theorem shadowing_counter_at_test :
    ∃ y t, (forTests (({} : Limits).setting .still none none) ⟨⟨1⟩, false, 0⟩ ⟨"i", 0⟩
        (.ofText "true") 1 shadowing 0 { channel := {} })[2]? = some (y, t) ∧
      t.scopes = [⟨"i", (· + 1)^[2] 0⟩] := by
  have h : ((forTests (({} : Limits).setting .still none none) ⟨⟨1⟩, false, 0⟩ ⟨"i", 0⟩
      (.ofText "true") 1 shadowing 0 { channel := {} })[2]?).isSome = true := by
    decide +kernel
  obtain ⟨⟨y, t⟩, hyt⟩ := Option.isSome_iff_exists.mp h
  exact ⟨y, t, hyt, ((scopes_run_and_counter_at_tests _).2 _ _ _ _ _ _ _).2 2 y t hyt⟩

end BlockLang
