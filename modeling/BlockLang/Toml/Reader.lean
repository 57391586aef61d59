import BlockLang.Toml.Node
import BlockLang.Toml.Scalar

/-!
# Reading TOML

A document is read in two steps, first into lines and then into a table. The readers of values
return fewer characters than they were given, and this is why reading ends. A limit keeps documents
shallow: no more keys than it says can stand in a row with dots between them, and no more brackets
can be open at the same time.
-/

namespace BlockLang.Toml

/-- What was read from the front of a text, and the characters that are left. -/
structure Read (α : Type) (bound : Nat) where
  value : α
  rest : List Char
  shorter : rest.length < bound

mutual

/-- Reads a value in which at most `room` brackets are open at the same time. -/
def readValue (limit room : Nat) (text : List Char) : Option (Read Value text.length) :=
  match room, text with
  | 0, '[' :: _ => none
  | room + 1, '[' :: rest => do
    let ⟨items, left, shorter⟩ ← readItems limit room rest
    return ⟨.array items, left, shorter⟩
  | 0, '{' :: _ => none
  | room + 1, '{' :: rest => do
    let ⟨pairs, left, shorter⟩ ← readPairs limit room rest
    let table ← Table.ofPairs? pairs
    return ⟨.table table, left, shorter⟩
  | _, text =>
    match quoted : readString text with
    | some (body, rest) =>
      some ⟨.string (.ofList body), rest, readString_length_lt quoted⟩
    | none =>
      match bare : readScalar text with
      | some (value, rest) => some ⟨value, rest, readScalar_length_lt bare⟩
      | none => none
termination_by 4 * text.length

/-- Reads the rest of a list after its opening bracket or a comma. -/
def readItems (limit room : Nat) (text : List Char) :
    Option (Read (List Value) (text.length + 1)) := do
  have le := skipTrivia_length_le text
  match start : skipTrivia text with
  | ']' :: rest => return ⟨[], rest, by rw [start, List.length_cons] at le; omega⟩
  | _ =>
    let ⟨item, rest, shorter⟩ ← readValue limit room (skipTrivia text)
    have le' := skipTrivia_length_le rest
    match after : skipTrivia rest with
    | ']' :: left => return ⟨[item], left, by rw [after, List.length_cons] at le'; omega⟩
    | ',' :: left =>
      have : left.length < text.length := by rw [after, List.length_cons] at le'; omega
      let ⟨items, left', shorter'⟩ ← readItems limit room left
      return ⟨item :: items, left', by omega⟩
    | _ => none
termination_by 4 * text.length + 1

/-- Reads the rest of a table after its opening brace. -/
def readPairs (limit room : Nat) (text : List Char) :
    Option (Read (List (KeyPath × Value)) (text.length + 1)) := do
  have le := skipBlanks_length_le text
  match after : skipBlanks text with
  | '}' :: rest => return ⟨[], rest, by rw [after, List.length_cons] at le; omega⟩
  | _ =>
    let ⟨pairs, rest, shorter⟩ ← readSomePairs limit room text
    return ⟨pairs, rest, by omega⟩
termination_by 4 * text.length + 3

/-- Reads one or more pairs with commas between them, up to a closing brace. -/
def readSomePairs (limit room : Nat) (text : List Char) :
    Option (Read (List (KeyPath × Value)) text.length) := do
  let ⟨pair, rest, shorter⟩ ← readPair limit room text
  have le := skipBlanks_length_le rest
  match after : skipBlanks rest with
  | '}' :: left => return ⟨[pair], left, by rw [after, List.length_cons] at le; omega⟩
  | ',' :: left =>
    have : left.length < text.length := by rw [after, List.length_cons] at le; omega
    let ⟨pairs, left', shorter'⟩ ← readSomePairs limit room left
    return ⟨pair :: pairs, left', by omega⟩
  | _ => none
termination_by 4 * text.length + 2

/-- Reads a key and its value. -/
def readPair (limit room : Nat) (text : List Char) :
    Option (Read (KeyPath × Value) text.length) :=
  match named : readPath limit text with
  | some (path, '=' :: rest) => do
    have lt : rest.length + 1 < text.length := readPath_length_lt named
    have le := skipBlanks_length_le rest
    let ⟨value, left, shorter⟩ ← readValue limit room (skipBlanks rest)
    return ⟨(path, value), left, by omega⟩
  | _ => none
termination_by 4 * text.length + 1

end

/-! ## Documents -/

/-- Reads what is on a line that is not blank. -/
def readLine (limit : Nat) (text : List Char) : Option (Line × List Char) :=
  match text with
  | '[' :: '[' :: rest => do
    match ← readPath limit rest with
    | (path, ']' :: ']' :: rest) => return (.itemHeader path, rest)
    | _ => none
  | '[' :: rest => do
    match ← readPath limit rest with
    | (path, ']' :: rest) => return (.header path, rest)
    | _ => none
  | text => (readPair limit limit text).map fun ⟨(path, value), rest, _⟩ => (.pair path value, rest)

theorem readLine_length_lt {limit : Nat} {text rest : List Char} {line : Line}
    (h : readLine limit text = some (line, rest)) : rest.length < text.length := by
  unfold readLine at h
  split at h
  · obtain ⟨⟨path, after⟩, named, h⟩ := Option.bind_eq_some_iff.1 h
    have shorter := readPath_length_lt named
    split at h
    · rename_i equal
      simp only [Prod.mk.injEq] at equal
      simp only [pure, Option.some.injEq, Prod.mk.injEq] at h
      rw [equal.2] at shorter
      simp only [List.length_cons] at shorter ⊢
      rw [← h.2]
      omega
    · simp at h
  · obtain ⟨⟨path, after⟩, named, h⟩ := Option.bind_eq_some_iff.1 h
    have shorter := readPath_length_lt named
    split at h
    · rename_i equal
      simp only [Prod.mk.injEq] at equal
      simp only [pure, Option.some.injEq, Prod.mk.injEq] at h
      rw [equal.2] at shorter
      simp only [List.length_cons] at shorter ⊢
      rw [← h.2]
      omega
    · simp at h
  · obtain ⟨⟨_, _, shorter⟩, _, equal⟩ := Option.map_eq_some_iff.1 h
    simp only [Prod.mk.injEq] at equal
    rw [← equal.2]
    exact shorter

/-- Reads all lines of a text. -/
def readLines (limit : Nat) (text : List Char) : Option (List Line) :=
  if _full : text = [] then some []
  else match _blank : readLineEnd text with
    | some rest => readLines limit rest
    | none =>
      match _line : readLine limit (skipBlanks text) with
      | none => none
      | some (line, rest) =>
        match _ended : readLineEnd rest with
        | none => none
        | some left => (readLines limit left).map (line :: ·)
termination_by text.length
decreasing_by
  · exact readLineEnd_length_lt _full _blank
  · have le := skipBlanks_length_le text
    have lt := readLine_length_lt _line
    have le' := readLineEnd_length_le _ended
    omega

/-- Drops the mark that can stand at the start of a file. -/
def dropByteOrderMark : List Char → List Char
  | '\ufeff' :: text => text
  | text => text

/-- The table that the text of a document stands for, if the document keeps to the limit. -/
def readWithin (limit : Nat) (document : String) : Option Table := do
  Table.ofLines? (← readLines limit (unifyLineEnds (dropByteOrderMark document.toList)))

/-- The limit for documents whose depth nothing else bounds. -/
def depthLimit : Nat := 79

/-- The table that the text of a document stands for. -/
def read (document : String) : Option Table :=
  readWithin depthLimit document

end BlockLang.Toml
