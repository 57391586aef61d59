import BlockLang.Text

/-!
# Files and folders

What a command sees of the files around it: a tree of folders, and paths that lead through it.
-/

namespace BlockLang

/-- Why there is no text at the end of a path. -/
inductive FileFault where
  | notFound
  /-- The path goes on behind a file. -/
  | notFolder
  | isFolder
  | nameTooLong
  | notText
  | other (message : String)
deriving Repr, DecidableEq

def FileFault.message : FileFault → String
  | notFound => "No such file or directory (os error 2)"
  | notFolder => "Not a directory (os error 20)"
  | isFolder => "Is a directory (os error 21)"
  | nameTooLong => "File name too long (os error 36)"
  | notText => "stream did not contain valid UTF-8"
  | other message => message

inductive FileTree where
  | file (content : Except FileFault String)
  | folder (entries : List (String × FileTree))

namespace FileTree

instance : Inhabited FileTree := ⟨folder []⟩

def isFile : FileTree → Bool
  | file _ => true
  | folder _ => false

def text : FileTree → Except FileFault String
  | file content => content
  | folder _ => .error .isFolder

/-- The most bytes that the name of an entry can have. -/
def nameLimit : Nat := 255

/-- The most bytes that a path can have. -/
def pathLimit : Nat := 4095

/-- Follows the parts of a path from a place in a tree. The folders around the place are given from
the inside out. Around all of them are folders of which nothing else is known. -/
def follow (around : List FileTree) (tree : FileTree) : List String → Except FileFault FileTree
  | [] => .ok tree
  | part :: parts =>
    match tree with
    | file _ => .error .notFolder
    | folder entries =>
      if part = "" ∨ part = "." then follow around (folder entries) parts
      else if part = ".." then
        match around with
        | [] => follow [] (folder []) parts
        | outer :: around => follow around outer parts
      else
        if nameLimit < part.utf8ByteSize then .error .nameTooLong
        else match entries.lookup part with
        | some inner => follow (folder entries :: around) inner parts
        | none => .error .notFound

/-- The parts of a path between its slashes. -/
def pathParts (path : String) : List String :=
  (Text.splitOn '/' path.toList).map .ofList

/-- What is at the end of a path. A path that begins with a slash does not start in the tree. -/
def find (tree : FileTree) (path : String) : Except FileFault FileTree :=
  if path = "" then .error .notFound
  else if pathLimit < path.utf8ByteSize then .error .nameTooLong
  else match pathParts path with
    | "" :: parts => follow [] (folder []) parts
    | parts => tree.follow [] parts

/-- Adds a file to the entries of a folder, with the folders on the way to it. A part of the way
that is taken by a file is left as it is. -/
def addFile (text : String) : List String → List (String × FileTree) → List (String × FileTree)
  | [], entries => entries
  | name :: parts, [] =>
    [(name, if parts.isEmpty then file (.ok text) else folder (addFile text parts []))]
  | name :: parts, (name', tree) :: entries =>
    if name' = name then
      match tree with
      | folder inner => (name', folder (addFile text parts inner)) :: entries
      | file content => (name', file content) :: entries
    else (name', tree) :: addFile text (name :: parts) entries

/-- The folder that holds the given files, each with its path and its text. -/
def ofFiles (files : List (String × String)) : FileTree :=
  folder (files.foldl (fun entries (path, text) => addFile text (pathParts path) entries) [])

/-- The path of an entry of the folder at the given path. -/
def join (path name : String) : String :=
  if path.toList.getLast?.all (· == '/') then path ++ name else path ++ "/" ++ name

mutual

/-- What can be seen of a tree through the path that leads to it. An entry whose own path is too
long is there, but it cannot be told what it is. -/
def seenFrom (path : String) : FileTree → FileTree
  | file content => file content
  | folder entries => folder (entriesSeenFrom path entries)

def entriesSeenFrom (path : String) : List (String × FileTree) → List (String × FileTree)
  | [] => []
  | (name, tree) :: entries =>
    let seen :=
      if pathLimit < (join path name).utf8ByteSize then file (.error .nameTooLong)
      else seenFrom (join path name) tree
    (name, seen) :: entriesSeenFrom path entries

end

end FileTree

/-- What is at the end of each path, as far as a command has to know. -/
abbrev FileView := String → Except FileFault FileTree

end BlockLang
