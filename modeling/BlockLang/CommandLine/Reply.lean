import BlockLang.Catalog
import BlockLang.CommandLine.Invocation
import BlockLang.Dump.Program
import BlockLang.Program.Check
import BlockLang.TestSuite

/-!
# Replies

What the program prints for an invocation, and the code it exits with. The files around it and the
clock are given to it, so that a reply depends on nothing else.
-/

namespace BlockLang.CommandLine

/-- Something that is printed. -/
inductive Print where
  /-- Text that is printed as it is. -/
  | output (text : String)
  /-- A line for the user, which is not part of the output. -/
  | message (line : String)

structure Reply where
  prints : List Print := []
  exitCode : UInt32 := 0

namespace Reply

def line (text : String) : Print := .output (text ++ "\n")

/-- A reply that says why there is no result. -/
def failure (line : String) : Reply := ⟨[.message line], 1⟩

end Reply

/-! ## Running a file -/

/-- The line about a diagnostic. One that is about a place in a text does not name its block. -/
def diagnosticLine (d : Diagnostic) : String :=
  match d.complaint.excerpt? with
  | some _ => (if d.isWarning then "warning: " else "error: ") ++ d.message
  | none =>
    (if d.isWarning then "warning: " else "runtime error: ") ++ d.message ++ " (block " ++
      d.block.text ++ ")"

namespace RunOptions

/-- Tells which texts of the program cannot be read. -/
def checkReply (o : RunOptions) (program : Program) : Reply :=
  let unreadable := program.unreadable
  if unreadable.isEmpty then ⟨[.message ("ok: " ++ o.file ++ " parsed successfully")], 0⟩
  else
    ⟨unreadable.map (fun u => .message ("error: " ++ u.error.message)) ++
      [.message ("error: " ++ Nat.repr unreadable.length ++ " block(s) in " ++ o.file ++
        " do not parse")], 1⟩

/-- The limits of a run. An option wins over what is in the file. -/
def limits (o : RunOptions) (file : ProgramFile) : Limits where
  iterationCap := o.iterationCap.getD file.limits.iterationCap
  timeLimit := o.timeLimit.or file.limits.timeLimit

/-- The problem that a run from `initial` is to solve. A target that is given replaces the target of
the problem in the file, or makes a problem of its own. -/
def problem? (o : RunOptions) (file : ProgramFile) (initial : Float) : Option Problem :=
  match o.target with
  | none => file.problem
  | some target =>
    let problem := file.problem.getD { initialValue := initial }
    some { problem with targetValue := some target }

/-- Tells whether a value solves a problem, if there is one with a target. -/
def verdict (problem : Option Problem) (value : Float) : List Print × UInt32 :=
  match problem, problem.bind Problem.targetValue with
  | some problem, some target =>
    if problem.isSolved value then ([.message "solved"], 0)
    else ([.message ("not solved: expected " ++ Number.labelText target)], 1)
  | _, _ => ([], 0)

/-- Runs the program and tells how it ended. A run that was cut short has no verdict. -/
def runReply (o : RunOptions) (file : ProgramFile) (clock : Clock) : Reply :=
  let initial := file.initialValue o.initial
  let outcome := file.run (o.limits file) clock initial
  let printed := if o.quiet then [] else [.output outcome.channel.text]
  let told := printed ++ outcome.diagnostics.map (fun d => .message (diagnosticLine d)) ++
    [Reply.line ("x = " ++ Number.labelText outcome.value)]
  if outcome.interrupted.isSome then ⟨told, 1⟩
  else
    let (verdict, exitCode) := verdict (o.problem? file initial) outcome.value
    ⟨told ++ verdict, exitCode⟩

def reply (o : RunOptions) (view : FileView) (clock : Clock) : Reply :=
  match (view o.file).bind FileTree.text with
  | .error fault => .failure ("error: cannot read '" ++ o.file ++ "': " ++ fault.message)
  | .ok text =>
    match ProgramFile.ofText? text with
    | none => .failure "error: TOML parse error"
    | some file =>
      if o.check then o.checkReply file.program
      else if o.dump then ⟨[Reply.line file.program.dump.text], 0⟩
      else o.runReply file clock

end RunOptions

/-! ## Running tests -/

inductive Paint where
  | green
  | red
  | bold

def Paint.code : Paint → String
  | green => "32"
  | red => "31"
  | bold => "1"

/-- Marks text with a paint, if color is wanted. -/
def paint (color : Bool) (paint : Paint) (text : String) : String :=
  if color then "\x1b[" ++ paint.code ++ "m" ++ text ++ "\x1b[0m" else text

/-- What a category is called. The tests that are in no folder have a category without a name. -/
def categoryName (category : String) : String :=
  if category.isEmpty then "(root)" else category

namespace TestOptions

def resultLine (color : Bool) (result : TestResult) : String :=
  let verdict :=
    if result.failure.isSome then paint color .red "FAIL" else paint color .green "PASS"
  "  " ++ verdict ++ "  " ++ result.label

/-- The lines that tell why a test fails. -/
def failureLines (result : TestResult) : List String :=
  match result.failure with
  | none => []
  | some failure =>
    "" :: ("  --- " ++ result.path ++ " ---") ::
      (Text.lines failure.reason).map fun line => "  " ++ line

def summaryLine (color : Bool) (total failed : Nat) : String :=
  if failed = 0 then
    paint color .green "ok" ++ ": " ++ Nat.repr total ++ " of " ++ Nat.repr total ++ " passed"
  else
    paint color .red "FAILED" ++ ": " ++ Nat.repr failed ++ " of " ++ Nat.repr total ++ " failed"

/-- The report on test results by category. -/
def reportLines (color headings : Bool) (results : List (String × List TestResult)) :
    List String :=
  let all := results.flatMap Prod.snd
  let failed := all.filter fun result => result.failure.isSome
  (results.flatMap fun (category, results) =>
      (if headings then ["", paint color .bold (categoryName category)] else []) ++
        results.map (resultLine color)) ++
    failed.flatMap failureLines ++ ["", summaryLine color all.length failed.length]

def isFile (o : TestOptions) (view : FileView) : Bool :=
  (view o.path).toOption.any FileTree.isFile

/-- All test files below the path, by category. -/
def suite (o : TestOptions) (view : FileView) : TestSuite :=
  match view o.path with
  | .ok tree => TestSuite.ofTests (FoundTest.ofTree (tree.seenFrom o.path))
  | .error _ => []

/-- The results of the test at the path, or of the requested ones below it. -/
def results (o : TestOptions) (view : FileView) (clock : Clock) : List (String × List TestResult) :=
  match view o.path with
  | .ok (.file content) =>
    [("", [.of clock o.path ((FileTree.pathParts o.path).getLastD "") content])]
  | _ => ((o.suite view).select o.categories).run clock o.path

/-- What is said if there is no test below the path. -/
def nothingFound (o : TestOptions) : String :=
  "no .test.toml files found in " ++ o.path

def listReply (o : TestOptions) (view : FileView) : Reply :=
  if o.isFile view then ⟨[.message "(single file, no categories)"], 0⟩
  else if (o.suite view).isEmpty then ⟨[.message o.nothingFound], 0⟩
  else
    ⟨(o.suite view).map fun (category, tests) =>
      .message (Text.padRight 24 (categoryName category) ++ " " ++ Nat.repr tests.length ++
        " test(s)"), 0⟩

/-- The warnings about requests that take in no category. -/
def warnings (o : TestOptions) (suite : TestSuite) : List String :=
  let known := ", ".intercalate (suite.map fun (category, _) => categoryName category)
  (suite.unknown o.categories).map fun request =>
    "warning: category '" ++ request ++ "' not found (available: " ++ known ++ ")"

def runReply (o : TestOptions) (color : Bool) (view : FileView) (clock : Clock) : Reply :=
  let single := o.isFile view
  if !single && (o.suite view).isEmpty then .failure o.nothingFound
  else
    let warnings := if single then [] else o.warnings (o.suite view)
    let results := o.results view clock
    let failed := results.any fun (_, results) => results.any fun result => result.failure.isSome
    if results.isEmpty then
      ⟨(warnings ++ ["no matching categories found"]).map .message, 1⟩
    else
      ⟨(warnings ++ reportLines color (!single) results).map .message, if failed then 1 else 0⟩

def reply (o : TestOptions) (color : Bool) (view : FileView) (clock : Clock) : Reply :=
  if o.listCategories then o.listReply view else o.runReply color view clock

end TestOptions

/-! ## Showing the catalog -/

def catalogLine (entry : CatalogEntry) : Print :=
  Reply.line (Text.padRight 16 entry.id ++ " " ++ Text.padRight 16 entry.name ++ " " ++
    entry.description)

def catalogReply : Option String → Reply
  | none => ⟨catalog.map catalogLine, 0⟩
  | some id =>
    match (CatalogEntry.find? id).bind fun entry => (entry.template.make {}).1 with
    | some (.block b) => ⟨[.output (BlockRecord.document [b.record])], 0⟩
    | some (.header h) => ⟨[Reply.line (h.kind.name ++ " header: " ++ h.label)], 0⟩
    | none => .failure ("error: no catalog entry '" ++ id ++ "'")

/-! ## Replies to invocations -/

def Invocation.reply (invocation : Invocation) (view : FileView) (clock : Clock) : Reply :=
  match invocation.command with
  | .run options => options.reply view clock
  | .test options => options.reply invocation.color view clock
  | .catalog show? => catalogReply show?

def versionText : String := "blocks 0.1.0\n"

def usageText : String :=
  "Block program interpreter\n\n" ++
  "Usage: blocks [--no-color] [--verbose] COMMAND\n\n" ++
  "Commands:\n" ++
  "  run FILE [--initial N] [--target N] [--iteration-cap COUNT] [--timeout-ms MS]\n" ++
  "           [--check] [--ast] [--quiet]\n" ++
  "  test PATH [--category NAME]... [--list-categories]\n" ++
  "  catalog [--show ID]\n" ++
  "  help [COMMAND]\n"

/-- What is printed when the arguments lead to no command. -/
def Stop.reply : Stop → Reply
  | rejected => ⟨[.message "error: the arguments are not understood; try --help"], 2⟩
  | help => ⟨[.output usageText], 0⟩
  | version => ⟨[.output versionText], 0⟩

/-- The reply to the arguments of the program. -/
def reply (args : List String) (view : FileView) (clock : Clock) : Reply :=
  match Invocation.ofArguments args with
  | .ok invocation => invocation.reply view clock
  | .error stop => stop.reply

end BlockLang.CommandLine
