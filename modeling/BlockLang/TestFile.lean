import BlockLang.ProgramFile
import BlockLang.Text

/-!
# Test files

A test file is a program file that also says how its run is to end. A test passes if the run meets
all that the file expects; otherwise the first expectation that it does not meet is the reason.
-/

namespace BlockLang

/-! ## Expectations -/

structure TestFile where
  description : Option String := none
  initial : Option Float := none
  value : Option Float := none
  /-- What is printed, without white space at either end. -/
  output : Option String := none
  solved : Option Bool := none
  interrupted : Option Bool := none
  /-- A part of the message of each diagnostic. -/
  diagnostics : Option (List String) := none
  file : ProgramFile := {}

/-- Why a test does not pass. -/
inductive Mismatch where
  | value (expected actual : Float)
  | output (expected actual : String)
  | noProblem
  | solved (expected actual : Bool) (x : Float)
  | interrupted (expected : Bool) (actual : Option Interruption)
  | diagnosticCount (expected : Nat) (actual : List Diagnostic)
  | diagnostic (index : Nat) (expected : String) (actual : Diagnostic)

namespace Mismatch

def ofBool (b : Bool) : String := if b then "true" else "false"

def ofInterruption : Option Interruption → String
  | none => "None"
  | some .cancelled => "Some(Cancelled)"
  | some .timedOut => "Some(TimedOut)"

def reason : Mismatch → String
  | value expected actual =>
    "value mismatch\n  expected: " ++ Number.labelText expected ++ "\n  actual:   " ++
      Number.labelText actual
  | output expected actual =>
    "output mismatch\n  expected: " ++ expected ++ "\n  actual:   " ++ actual
  | noProblem => "expect_solved needs a [problem] table"
  | solved expected actual x =>
    "expected solved = " ++ ofBool expected ++ ", got " ++ ofBool actual ++ " (x = " ++
      Number.labelText x ++ ")"
  | interrupted expected actual =>
    "expected interrupted = " ++ ofBool expected ++ ", got " ++ ofInterruption actual
  | diagnosticCount expected actual =>
    "expected " ++ Nat.repr expected ++ " diagnostic(s), got " ++ Nat.repr actual.length ++
      "\n  actual diagnostics:\n" ++
      if actual.isEmpty then "    (none)"
      else "\n".intercalate (actual.map fun d => "  - " ++ d.message)
  | diagnostic index expected actual =>
    "diagnostic[" ++ Nat.repr index ++ "]: expected message containing \"" ++ expected ++
      "\", got: " ++ actual.message

end Mismatch

namespace TestFile

/-! ### Checks -/

/-- A number is as expected if it is equal, or if neither is a number. -/
def checkValue (actual expected : Float) : Option Mismatch :=
  if actual == expected || (actual.isNaN && expected.isNaN) then none
  else some (.value expected actual)

def checkOutput (actual expected : String) : Option Mismatch :=
  if Text.trim actual = Text.trim expected then none
  else some (.output (Text.trim expected) (Text.trim actual))

def checkSolved (problem : Option Problem) (value : Float) (expected : Bool) : Option Mismatch :=
  match problem with
  | none => some .noProblem
  | some problem =>
    let solved := problem.isSolved value
    if solved = expected then none else some (.solved expected solved value)

def checkInterrupted (actual : Option Interruption) (expected : Bool) : Option Mismatch :=
  if actual.isSome = expected then none else some (.interrupted expected actual)

/-- Checks the messages of diagnostics one by one, from the one with the given index on. -/
def checkMessages (index : Nat) : List Diagnostic → List String → Option Mismatch
  | d :: ds, part :: parts =>
    if Text.occursIn part.toList d.message.toList then checkMessages (index + 1) ds parts
    else some (.diagnostic index part d)
  | _, _ => none

def checkDiagnostics (actual : List Diagnostic) (expected : List String) : Option Mismatch :=
  if actual.length = expected.length then checkMessages 0 actual expected
  else some (.diagnosticCount expected.length actual)

/-- The run of the test. -/
def run (test : TestFile) (clock : Clock) : Outcome Buffer :=
  test.file.run test.file.limits clock (test.file.initialValue test.initial)

/-- The first expectation that the run of the test does not meet. -/
def mismatch? (test : TestFile) (clock : Clock) : Option Mismatch :=
  let outcome := test.run clock
  [test.value.bind (checkValue outcome.value),
    test.output.bind (checkOutput outcome.channel.text),
    test.solved.bind (checkSolved test.file.problem outcome.value),
    test.interrupted.bind (checkInterrupted outcome.interrupted),
    test.diagnostics.bind (checkDiagnostics outcome.diagnostics)].findSome? id

/-! ### Reading -/

def partOfValue? (value : Toml.Value) : Option String := do
  (← value.fields? .ignore ["contains"]).required "contains" Toml.Value.string?

def partsOfValue? : Toml.Value → Option (List String)
  | .array items => items.mapM partOfValue?
  | _ => none

/-- Reads a test file. It has the fields of a program file beside its own, and is stricter about
them. -/
def ofTable? (document : Toml.Table) : Option TestFile := do
  let fields : Toml.Fields Toml.Value := document
  return {
    description := ← fields.optional "description" Toml.Value.string?
    initial := ← fields.optional "initial" Toml.Value.number?
    value := ← fields.optional "expect_value" Toml.Value.number?
    output := ← fields.optional "expect_output" Toml.Value.string?
    solved := ← fields.optional "expect_solved" Toml.Value.boolean?
    interrupted := ← fields.optional "expect_interrupted" Toml.Value.boolean?
    diagnostics := ← fields.optional "expect_diagnostics" partsOfValue?
    file := ← ProgramFile.ofTable? .refuse document }

/-- Reads the text of a test file. -/
def ofText? (text : String) : Option TestFile := do
  ofTable? (← Toml.read text)

end TestFile

end BlockLang
