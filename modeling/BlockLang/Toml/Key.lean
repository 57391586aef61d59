import BlockLang.Toml.Quoted

/-!
# Keys

A key is bare or in quotes. Keys with dots between them lead from table to table to the place of an
entry; how many there can be is up to who reads them.
-/

namespace BlockLang.Toml

/-- The place of an entry: the keys of the tables around it, from the outside in, and its name. -/
structure KeyPath where
  parents : List String
  name : String
deriving Repr, DecidableEq

def KeyPath.toList (path : KeyPath) : List String :=
  path.parents ++ [path.name]

/-- Reads one key. -/
def readKey (text : List Char) : Option (List Char × List Char) :=
  match text with
  | '"' :: rest => readBasic rest
  | '\'' :: rest => readLiteral rest
  | _ =>
    if text.takeWhile isBareKeyChar = [] then none
    else some (text.takeWhile isBareKeyChar, text.dropWhile isBareKeyChar)

theorem readKey_length_lt {text key rest : List Char} (h : readKey text = some (key, rest)) :
    rest.length < text.length := by
  unfold readKey at h
  split at h
  · exact Nat.lt_succ_of_lt (readBasic_length_lt h)
  · exact Nat.lt_succ_of_lt (readLiteral_length_lt h)
  · simp only [Option.ite_none_left_eq_some, Option.some.injEq, Prod.mk.injEq] at h
    obtain ⟨some_key, _, rfl⟩ := h
    have whole :=
      congrArg List.length (List.takeWhile_append_dropWhile (p := isBareKeyChar) (l := text))
    have pos := List.length_pos_iff.2 some_key
    rw [List.length_append] at whole
    omega

/-- Reads keys with dots between them, and the blanks around each of them. There can be at most
`limit` keys. -/
def readPath (limit : Nat) (text : List Char) : Option (KeyPath × List Char) :=
  match limit with
  | 0 => none
  | limit + 1 =>
    match readKey (skipBlanks text) with
    | none => none
    | some (key, rest) =>
      match skipBlanks rest with
      | '.' :: rest' =>
        (readPath limit rest').map fun (path, left) =>
          (⟨String.ofList key :: path.parents, path.name⟩, left)
      | rest' => some (⟨[], String.ofList key⟩, rest')

theorem readPath_length_lt {limit : Nat} {text rest : List Char} {path : KeyPath}
    (h : readPath limit text = some (path, rest)) : rest.length < text.length := by
  fun_induction readPath limit text generalizing path rest with
  | case1 => simp at h
  | case2 => simp at h
  | case3 text limit key after read left dotted ih =>
    obtain ⟨⟨inner, left'⟩, read', equal⟩ := Option.map_eq_some_iff.1 h
    simp only [Prod.mk.injEq] at equal
    have shorter := ih read'
    have := skipBlanks_length_le text
    have := readKey_length_lt read
    have more := skipBlanks_length_le after
    rw [dotted] at more
    rw [equal.2] at shorter
    simp only [List.length_cons] at more
    omega
  | case4 text limit key after read _ =>
    simp only [Option.some.injEq, Prod.mk.injEq] at h
    have := skipBlanks_length_le text
    have := readKey_length_lt read
    have := skipBlanks_length_le after
    rw [← h.2]
    omega

end BlockLang.Toml
