import BlockLang.CommandLine.Reply

/-!
# The program

Reads the files that an invocation is about, and prints the reply to it.
-/

namespace BlockLang

open CommandLine

/-! ## Files -/

def FileFault.ofError : IO.Error → FileFault
  | .noFileOrDirectory .. => .notFound
  | .inappropriateType .. => .notFolder
  | .invalidArgument _ 36 _ => .nameTooLong
  | error => .other (toString error)

def isFolder (path : String) : BaseIO Bool :=
  (IO.FS.DirEntry.mk path "").root.isDir

/-- Reads the text of a file. -/
def readText (path : String) : BaseIO (Except FileFault String) := do
  match ← (IO.FS.readBinFile path).toBaseIO with
  | .error error => return .error (.ofError error)
  | .ok bytes => match String.fromUTF8? bytes with
    | some text => return .ok text
    | none => return .error .notText

/-- The names of the entries of a folder. There are none in one that cannot be read. -/
def entryNames (path : String) : BaseIO (List String) := do
  match ← (IO.FS.DirEntry.mk path "").root.readDir.toBaseIO with
  | .ok entries => return entries.toList.map fun entry => entry.fileName
  | .error _ => return []

/-- Reads a folder, but of the files in it only those that are tests. -/
partial def readFolder (path : String) : BaseIO FileTree := do
  let entries ← (← entryNames path).mapM fun name => do
    let inner := FileTree.join path name
    if ← isFolder inner then return (name, ← readFolder inner)
    else if (testStem? name).isSome then return (name, .file (← readText inner))
    else return (name, .file (.error .notText))
  return .folder entries

/-- What is at the end of a path. Only a command that looks for tests needs to see into a folder. -/
def readTree (deep : Bool) (path : String) : BaseIO (Except FileFault FileTree) := do
  if ← isFolder path then
    return .ok (← if deep then readFolder path else pure (.folder []))
  else match ← readText path with
    | .error .notText => return .ok (.file (.error .notText))
    | .error fault => return .error fault
    | .ok text => return .ok (.file (.ok text))

/-- What a command has to see of the files around it. -/
def readView (command : Command) : BaseIO FileView := do
  let seen ← match command with
    | .run options => readTree false options.file
    | .test options => readTree true options.path
    | .catalog _ => pure (.error .notFound)
  return fun _ => seen

/-! ## Time -/

/-- A run that is used to see how fast runs are. -/
def sampleRun (passes : UInt64) : Outcome Buffer :=
  let file : ProgramFile := { slots := [.whileLoop (some "true") [.statement "x += 1" false]] }
  file.run { iterationCap := passes } .still 0

def samplePasses : UInt64 := 5000

/-- A clock that ticks as often as a sample run asks whether it has to stop. -/
def measuredClock : IO Clock := do
  let start ← IO.monoNanosNow
  let sample ← IO.lazyPure fun _ => sampleRun samplePasses
  let checks := sample.state.checks
  let stop ← if checks = 0 then pure start else IO.monoNanosNow
  return fun limit => some (limit.toNat * checks * 1000000 / max 1 (stop - start))

end BlockLang

open BlockLang in
def main (args : List String) : IO UInt32 := do
  let view ← match CommandLine.Invocation.ofArguments args with
    | .ok invocation => readView invocation.command
    | .error _ => pure fun _ => .error .notFound
  let reply := CommandLine.reply args view (← measuredClock)
  for print in reply.prints do
    match print with
    | .output text => IO.print text
    | .message line => IO.eprintln line
  return reply.exitCode
