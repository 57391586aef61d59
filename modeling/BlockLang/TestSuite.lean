import BlockLang.FileTree
import BlockLang.TestFile

/-!
# Test suites

The test files in a folder and below it. A file belongs to the category that is named for the
folders on the way to it; the categories are run in the order of their names, and the files of a
category in the order of theirs.
-/

namespace BlockLang

/-! ## Finding tests -/

/-- How the names of test files end. -/
def testSuffix : String := ".test.toml"

/-- The name of a test file without its ending. -/
def testStem? (name : String) : Option String :=
  if testSuffix.toList.isSuffixOf name.toList then
    some (.ofList (name.toList.take (name.toList.length - testSuffix.toList.length)))
  else none

/-- A file whose name is that of a test, below the folder that is searched. -/
structure FoundTest where
  folders : List String
  name : String
  content : Except FileFault String

namespace FoundTest

mutual

/-- The tests at an entry of a folder and below it. -/
def ofEntry (folders : List String) (name : String) : FileTree → List FoundTest
  | .file content => if (testStem? name).isSome then [⟨folders, name, content⟩] else []
  | .folder entries => ofEntries (folders ++ [name]) entries

def ofEntries (folders : List String) : List (String × FileTree) → List FoundTest
  | [] => []
  | (name, tree) :: entries => ofEntry folders name tree ++ ofEntries folders entries

end

/-- The tests below the end of a path. -/
def ofTree : FileTree → List FoundTest
  | .file _ => []
  | .folder entries => ofEntries [] entries

/-- The category of a test. It has no backslashes, also if a folder has. -/
def category (test : FoundTest) : String :=
  ("/".intercalate test.folders).map fun c => if c == '\\' then '/' else c

def path (test : FoundTest) : List String :=
  test.folders ++ [test.name]

/-- The path of a test, given that of the folder that was searched. -/
def fullPath (root : String) (test : FoundTest) : String :=
  test.path.foldl FileTree.join root

end FoundTest

/-- Tests by category. -/
abbrev TestSuite := List (String × List FoundTest)

namespace TestSuite

/-- The tests in order, by category. -/
def ofTests (tests : List FoundTest) : TestSuite :=
  let categories := ((tests.map FoundTest.category).mergeSort fun a b => decide (a ≤ b)).eraseDups
  categories.map fun category =>
    (category, (tests.filter (·.category = category)).mergeSort fun a b => !b.path.lex a.path)

/-- Whether a request takes in a category: it names the category, or one above it. -/
def covers (request category : String) : Bool :=
  category = request || (request ++ "/").toList.isPrefixOf category.toList

/-- A requested category without slashes at either end. -/
def requestName (request : String) : String :=
  Text.trimWhere (· == '/') request

/-- The categories that one of the requests takes in, or all if there is no request. -/
def select (suite : TestSuite) (requests : List String) : TestSuite :=
  if requests.isEmpty then suite
  else suite.filter fun (category, _) => requests.any fun r => covers (requestName r) category

/-- The requests that take in no category. -/
def unknown (suite : TestSuite) (requests : List String) : List String :=
  (requests.map requestName).filter fun r => !suite.any fun (category, _) => covers r category

end TestSuite

/-! ## Running tests -/

/-- Why a test fails. -/
inductive TestFailure where
  | unreadable (fault : FileFault)
  | notToml
  | mismatch (mismatch : Mismatch)

def TestFailure.reason : TestFailure → String
  | unreadable fault => "cannot read file: " ++ fault.message
  | notToml => "TOML parse error"
  | mismatch m => m.reason

structure TestResult where
  path : String
  /-- The description in the test file, or else its name. -/
  label : String
  failure : Option TestFailure

/-- Runs a test, given its path, its name in its folder and its content. -/
def TestResult.of (clock : Clock) (path name : String) (content : Except FileFault String) :
    TestResult :=
  let label := (testStem? name).getD "?"
  match content with
  | .error fault => ⟨path, label, some (.unreadable fault)⟩
  | .ok text =>
    match TestFile.ofText? text with
    | none => ⟨path, label, some .notToml⟩
    | some test =>
      ⟨path, test.description.getD label, (test.mismatch? clock).map .mismatch⟩

/-- Runs the tests of a suite that was found at a path. -/
def TestSuite.run (suite : TestSuite) (clock : Clock) (root : String) :
    List (String × List TestResult) :=
  suite.map fun (category, tests) =>
    (category, tests.map fun test => .of clock (test.fullPath root) test.name test.content)

end BlockLang
