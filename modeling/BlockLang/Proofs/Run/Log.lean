import BlockLang.Run.Diagnostic
import Mathlib.Tactic.Lemma

/-!
# Logs

What happened while a block was evaluated, and where: at the block itself or at a block inside it.
A log is read by picking out what happened at the block itself.
-/

namespace BlockLang

/-- The way from a block to a block inside it: the part and the index at each level. -/
abbrev Path := List (Block.Part × Nat)

inductive Happening where
  /-- The evaluation of the block begins. -/
  | begun
  | tested (holds : Bool)
  /-- A pass of the loop begins, with the number that the loop itself gives to it. -/
  | passed (counter : UInt64)
  /-- A break ends the loop. -/
  | left
  | reported (d : Diagnostic)

/-- What happened at a block, which is given by the way to it from the block that is evaluated. -/
structure Event where
  path : Path
  happening : Happening

abbrev Log := List Event

namespace Log

/-- The log of a block in a list, told from the block that holds the list. -/
def inside (part : Block.Part) (index : Nat) (log : Log) : Log :=
  log.map fun e => { e with path := (part, index) :: e.path }

/-- What the evaluated block itself reported. -/
def reports (ds : List Diagnostic) : Log :=
  ds.map fun d => ⟨[], .reported d⟩

/-- The evaluated block has looked at its condition, and reported it if that failed. -/
def test (ds : List Diagnostic) (holds : Bool) : Log :=
  reports ds ++ [⟨[], .tested holds⟩]

end Log

/-! ## Reading a log -/

namespace Happening

def isBegun : Happening → Bool
  | begun => true
  | _ => false

def test? : Happening → Option Bool
  | tested holds => some holds
  | _ => none

def pass? : Happening → Option UInt64
  | passed counter => some counter
  | _ => none

def diagnostic? : Happening → Option Diagnostic
  | reported d => some d
  | _ => none

/-- The report of a loop that would go on at the cap. -/
def cap? : Happening → Option Diagnostic
  | reported ⟨id, .iterationCap kind cap⟩ => some ⟨id, .iterationCap kind cap⟩
  | _ => none

end Happening

namespace Log

/-- What happened at the evaluated block itself and not inside it. -/
def own (log : Log) : List Happening :=
  log.filterMap fun e => if e.path = [] then some e.happening else none

/-- The answers of the block's own condition. -/
def tests (log : Log) : List Bool := log.own.filterMap Happening.test?

/-- The numbers that a loop gives to its own passes. -/
def passes (log : Log) : List UInt64 := log.own.filterMap Happening.pass?

/-- The block's own reports of the cap. -/
def caps (log : Log) : List Diagnostic := log.own.filterMap Happening.cap?

/-- All that was reported, by the block or by blocks inside it. -/
def diagnostics (log : Log) : List Diagnostic :=
  log.filterMap fun e => e.happening.diagnostic?

/-- How often the block at the end of a path was evaluated. -/
def evaluations (log : Log) (path : Path) : Nat :=
  log.countP fun e => e.path = path && e.happening.isBegun

@[simp] lemma own_nil : own [] = [] := rfl

/-- What happened at the block itself in two logs is what happened in the one and then in the
other. -/
@[simp] lemma own_append (log more : Log) : (log ++ more).own = log.own ++ more.own :=
  List.filterMap_append

/-- What happens at the block itself comes in front. -/
@[simp] lemma own_cons (h : Happening) (log : Log) :
    own (⟨[], h⟩ :: log) = h :: log.own := rfl

/-- What happens at a block inside does not happen at the block that holds it. -/
@[simp] lemma own_inside (part : Block.Part) (index : Nat) (log : Log) :
    (log.inside part index).own = [] := by
  rw [own, inside, List.filterMap_map, List.filterMap_eq_nil_iff]
  exact fun e _ => rfl

/-- The block's reports are its own. -/
@[simp] lemma own_reports (ds : List Diagnostic) :
    (reports ds).own = ds.map .reported := by
  rw [own, reports, List.filterMap_map, ← List.filterMap_eq_map]
  rfl

/-- A look at the condition is the block's own, and so are the reports that it leads to. -/
@[simp] lemma own_test (ds : List Diagnostic) (holds : Bool) :
    (test ds holds).own = ds.map .reported ++ [.tested holds] := by
  simp [test]

@[simp] lemma diagnostics_nil : diagnostics [] = [] := rfl

@[simp] lemma diagnostics_append (log more : Log) :
    (log ++ more).diagnostics = log.diagnostics ++ more.diagnostics :=
  List.filterMap_append

/-- An event adds the diagnostic that it reports, if it reports one. -/
@[simp] lemma diagnostics_cons (e : Event) (log : Log) :
    diagnostics (e :: log) = e.happening.diagnostic?.toList ++ log.diagnostics := by
  simp only [diagnostics, List.filterMap_cons]
  cases e.happening.diagnostic? <;> rfl

/-- A report is passed on by the blocks around, whatever path they give it. -/
@[simp] lemma diagnostics_inside (part : Block.Part) (index : Nat) (log : Log) :
    (log.inside part index).diagnostics = log.diagnostics := by
  rw [diagnostics, inside, List.filterMap_map]
  rfl

/-- Nothing is reported twice or left out. -/
@[simp] lemma diagnostics_reports (ds : List Diagnostic) : (reports ds).diagnostics = ds := by
  rw [diagnostics, reports, List.filterMap_map]
  exact List.filterMap_some

/-- A look at the condition reports what went wrong and nothing else. -/
@[simp] lemma diagnostics_test (ds : List Diagnostic) (holds : Bool) :
    (test ds holds).diagnostics = ds := by
  simp [test, Happening.diagnostic?]

@[simp] lemma evaluations_nil (path : Path) : evaluations [] path = 0 := rfl

/-- Evaluations in two logs add up. -/
@[simp] lemma evaluations_append (log more : Log) (path : Path) :
    (log ++ more).evaluations path = log.evaluations path + more.evaluations path :=
  List.countP_append

/-- An event counts if it is the beginning of an evaluation at the end of the path. -/
@[simp] lemma evaluations_cons (e : Event) (log : Log) (path : Path) :
    evaluations (e :: log) path =
      (if e.path = path ∧ e.happening.isBegun then 1 else 0) + log.evaluations path := by
  simp [evaluations, List.countP_cons, Nat.add_comm]

/-- A report is not the beginning of an evaluation. -/
@[simp] lemma evaluations_reports (ds : List Diagnostic) (path : Path) :
    (reports ds).evaluations path = 0 := by
  simp [evaluations, reports, List.countP_eq_zero, Happening.isBegun]

/-- No block is evaluated while the condition is looked at. -/
@[simp] lemma evaluations_test (ds : List Diagnostic) (holds : Bool) (path : Path) :
    (test ds holds).evaluations path = 0 := by
  simp [test, Happening.isBegun]

/-- The block that holds a list is not evaluated by a block of the list. -/
@[simp] lemma evaluations_inside_nil (part : Block.Part) (index : Nat) (log : Log) :
    (log.inside part index).evaluations [] = 0 := by
  simp [evaluations, inside, List.countP_eq_zero]

/-- A path that begins with the place of a block in the list goes on in the log of that block, and
other paths do not lead into it. -/
@[simp] lemma evaluations_inside_cons (part part' : Block.Part) (index index' : Nat) (log : Log)
    (path : Path) : (log.inside part index).evaluations ((part', index') :: path) =
      if part = part' ∧ index = index' then log.evaluations path else 0 := by
  simp only [evaluations, inside, List.countP_map]
  split
  · rename_i h
    obtain ⟨rfl, rfl⟩ := h
    simp [Function.comp_def]
  · rename_i h
    rw [List.countP_eq_zero]
    intro e _
    simp [h]

/-! ### What a loop does -/

section Projections

variable (log more : Log) (h : Happening) (ds : List Diagnostic) (holds : Bool)

@[simp] lemma tests_nil : tests [] = [] := rfl

@[simp] lemma passes_nil : passes [] = [] := rfl

@[simp] lemma caps_nil : caps [] = [] := rfl

@[simp] lemma tests_append : (log ++ more).tests = log.tests ++ more.tests := by
  simp [tests]

@[simp] lemma passes_append : (log ++ more).passes = log.passes ++ more.passes := by
  simp [passes]

/-- A loop reports the cap in a log if it does so in one of its two parts. -/
@[simp] lemma caps_append : (log ++ more).caps = log.caps ++ more.caps := by
  simp [caps]

/-- The answer of a condition comes before those that follow. -/
@[simp] lemma tests_cons : tests (⟨[], h⟩ :: log) = h.test?.toList ++ log.tests := by
  cases h <;> rfl

/-- The number of a pass comes before those of later passes. -/
@[simp] lemma passes_cons : passes (⟨[], h⟩ :: log) = h.pass?.toList ++ log.passes := by
  cases h <;> rfl

/-- A report of the cap comes before later ones. -/
@[simp] lemma caps_cons : caps (⟨[], h⟩ :: log) = h.cap?.toList ++ log.caps := by
  simp only [caps, own_cons, List.filterMap_cons]
  cases h.cap? <;> rfl

/-- A report is not the answer of a condition. -/
@[simp] lemma tests_reports : (reports ds).tests = [] := by
  simp [tests, Happening.test?]

/-- A report does not begin a pass. -/
@[simp] lemma passes_reports : (reports ds).passes = [] := by
  simp [passes, Happening.pass?]

/-- A look at the condition has one answer, however many reports come before it. -/
@[simp] lemma tests_test : (test ds holds).tests = [holds] := by
  simp only [test, tests_append, tests_reports]
  rfl

/-- A look at the condition does not begin a pass. -/
@[simp] lemma passes_test : (test ds holds).passes = [] := by
  simp only [test, passes_append, passes_reports]
  rfl

variable {log}

/-- If nothing happened at the block itself, its condition was not looked at. -/
lemma tests_of_own (hown : log.own = []) : log.tests = [] := by rw [tests, hown]; rfl

/-- If nothing happened at the block itself, no pass of it began. -/
lemma passes_of_own (hown : log.own = []) : log.passes = [] := by rw [passes, hown]; rfl

/-- If nothing happened at the block itself, it has not reported the cap. -/
lemma caps_of_own (hown : log.own = []) : log.caps = [] := by rw [caps, hown]; rfl

end Projections

end Log

end BlockLang
