import BlockLang.CommandLine.Switch
import BlockLang.Number.Text

/-!
# Invocations

What the arguments of the program ask for. A switch that is not for several values can be given
once at most, but the switches that all commands share can be given once before the name of the
command and once after it.
-/

namespace BlockLang.CommandLine

/-- The switches that all commands share. -/
structure Shared where
  noColor : Bool := false
  verbose : Bool := false
deriving Repr, DecidableEq

structure RunOptions where
  file : String
  initial : Option Float := none
  target : Option Float := none
  iterationCap : Option UInt64 := none
  /-- In milliseconds. -/
  timeLimit : Option UInt64 := none
  check : Bool := false
  dump : Bool := false
  quiet : Bool := false

structure TestOptions where
  path : String
  categories : List String := []
  listCategories : Bool := false

inductive Command where
  | run (options : RunOptions)
  | test (options : TestOptions)
  /-- The whole catalog, or the entry with the given id. -/
  | catalog (show? : Option String)

structure Invocation where
  color : Bool
  command : Command

/-! ## Values -/

/-- A flag, if it was not set before. -/
def setFlag (before : Bool) : Option Bool :=
  if before then none else some true

/-- A value, if there was none before. -/
def setOnce {α : Type} (before : Option α) (value : Option α) : Option (Option α) :=
  if before.isSome then none else value.map some

def number? (text : String) : Option Float :=
  Number.ofText? text.toList

/-- A count of 64 bits, which can have a plus in front. -/
def count? (text : String) : Option UInt64 :=
  let digits := match text.toList with
    | '+' :: digits => digits
    | digits => digits
  if digits.isEmpty || !digits.all Char.isDigit then none
  else if Decimal.value digits < UInt64.size then some (.ofNat (Decimal.value digits))
  else none

/-! ## Switches -/

/-- The settings of a command that are being read: those of its own, and the shared ones. -/
structure Draft (σ : Type) where
  own : σ
  shared : Shared := {}

def sharedSwitches {σ : Type} : List (Switch (Draft σ)) := [
  { long := "no-color", effect := .flag fun d => do
      return { d with shared.noColor := ← setFlag d.shared.noColor } },
  { long := "verbose", short := some 'v', effect := .flag fun d => do
      return { d with shared.verbose := ← setFlag d.shared.verbose } },
  { long := "help", short := some 'h', effect := .stop .help }]

/-- The settings of a run without those that have to be there. -/
structure RunDraft where
  file : Option String := none
  options : RunOptions := { file := "" }

def runSwitches : List (Switch (Draft RunDraft)) := [
  { long := "initial", effect := .value true fun text d => do
      return { d with own.options.initial := ← setOnce d.own.options.initial (number? text) } },
  { long := "target", effect := .value true fun text d => do
      return { d with own.options.target := ← setOnce d.own.options.target (number? text) } },
  { long := "iteration-cap", effect := .value false fun text d => do
      return { d with
        own.options.iterationCap := ← setOnce d.own.options.iterationCap (count? text) } },
  { long := "timeout-ms", effect := .value false fun text d => do
      return { d with own.options.timeLimit := ← setOnce d.own.options.timeLimit (count? text) } },
  { long := "check", effect := .flag fun d => do
      return { d with own.options.check := ← setFlag d.own.options.check } },
  { long := "ast", effect := .flag fun d => do
      return { d with own.options.dump := ← setFlag d.own.options.dump } },
  { long := "quiet", short := some 'q', effect := .flag fun d => do
      return { d with own.options.quiet := ← setFlag d.own.options.quiet } }]

/-- The settings of a test without those that have to be there. -/
structure TestDraft where
  path : Option String := none
  options : TestOptions := { path := "" }

def testSwitches : List (Switch (Draft TestDraft)) := [
  { long := "category", short := some 'c', effect := .value false fun text d =>
      some { d with own.options.categories := d.own.options.categories ++ [text] } },
  { long := "list-categories", effect := .flag fun d => do
      return { d with own.options.listCategories := ← setFlag d.own.options.listCategories } }]

def catalogSwitches : List (Switch (Draft (Option String))) := [
  { long := "show", effect := .value false fun text d => do
      return { d with own := ← setOnce d.own (some text) } }]

/-! ## Reading -/

/-- Reads the arguments of a command after its name. -/
def readCommand {σ : Type} (switches : List (Switch (Draft σ)))
    (plain : String → σ → Option σ) (finish : σ → Option Command) (args : List String) (start : σ) :
    Except Stop (Shared × Command) := do
  let placed (text : String) (d : Draft σ) := do return { d with own := ← plain text d.own }
  let draft ← applyAll (switches ++ sharedSwitches) placed none args { own := start }
  return (draft.shared, ← orRejected (finish draft.own))

/-- What the words after the command `help` lead to. -/
def readHelp : List String → Stop
  | [] => .help
  | [name] => if name ∈ ["run", "test", "catalog", "help"] then .help else .rejected
  | _ => .rejected

/-- Reads the command with the given name. -/
def readNamed (name : String) (args : List String) : Except Stop (Shared × Command) :=
  match name with
  | "run" =>
    readCommand runSwitches
      (fun text d => do return { d with file := ← setOnce d.file (some text) })
      (fun d => d.file.map fun file => .run { d.options with file }) args {}
  | "test" =>
    readCommand testSwitches
      (fun text d => do return { d with path := ← setOnce d.path (some text) })
      (fun d => d.path.map fun path => .test { d.options with path }) args {}
  | "catalog" =>
    readCommand catalogSwitches (fun _ _ => none) (fun id => some (.catalog id)) args none
  | "help" => .error (readHelp args)
  | _ => .error .rejected

def commandNames : List String := ["run", "test", "catalog", "help"]

/-- Reads the arguments of the program. -/
def Invocation.ofArguments (args : List String) : Except Stop Invocation := do
  let isBefore (arg : String) := !commandNames.contains arg && arg != "--"
  let version : Switch (Draft Unit) :=
    { long := "version", short := some 'V', effect := .stop .version }
  let before ← applyAll (version :: sharedSwitches) (fun _ _ => none) none
    (args.takeWhile isBefore) { own := () }
  match args.dropWhile isBefore with
  | [] => throw .rejected
  | name :: args =>
    let (after, command) ← readNamed name args
    return ⟨!(before.shared.noColor || after.noColor), command⟩

end BlockLang.CommandLine
