import BlockLang.Problem.Toml
import BlockLang.Record.Toml
import BlockLang.Run.Buffer

/-!
# Program files

A file has a program, and it can have a problem that the program is to solve and limits for its
runs.
-/

namespace BlockLang

/-- The names of the limits in a file, in their order. -/
def Limits.fieldNames : List String :=
  ["iteration_cap", "time_limit_ms"]

def Limits.ofFields? (fields : Toml.Fields Toml.Value) : Option Limits := do
  let count? := Toml.Value.natural? UInt64.size
  return {
    iterationCap := .ofNat
      (← fields.withDefault "iteration_cap" count? defaultIterationCap.toNat)
    timeLimit := (← fields.optional "time_limit_ms" count?).map .ofNat }

structure ProgramFile where
  problem : Option Problem := none
  limits : Limits := {}
  slots : List BlockRecord := []

namespace ProgramFile

/-- Reads the parts of a file that have to do with its program. -/
def ofTable? (surplus : Toml.Surplus) (document : Toml.Table) : Option ProgramFile := do
  let fields : Toml.Fields Toml.Value := document
  return {
    problem := ← fields.optional "problem" fun value =>
      (value.fields? surplus Problem.fieldNames).bind Problem.ofFields?
    limits := ← fields.withDefault "limits"
      (fun value => (value.fields? surplus Limits.fieldNames).bind Limits.ofFields?) {}
    slots := ← BlockRecord.slots? document }

/-- Reads the text of a file. -/
def ofText? (text : String) : Option ProgramFile := do
  ofTable? .ignore (← Toml.read text)

/-- The program of the file, with the first identities that there are. -/
def program (file : ProgramFile) : Program :=
  (Program.ofRecords file.slots {}).1

/-- What the program variable begins with: the given value, or else that of the problem, or zero. -/
def initialValue (file : ProgramFile) (given : Option Float) : Float :=
  (given.or (file.problem.map Problem.initialValue)).getD 0

/-- Runs the program with output in memory. -/
def run (file : ProgramFile) (limits : Limits) (clock : Clock) (initial : Float) :
    Outcome Buffer :=
  file.program.run (limits.setting clock none none) initial {}

end ProgramFile

end BlockLang
