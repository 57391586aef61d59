import BlockLang.Proofs.Toml.Scalars
import BlockLang.Proofs.Toml.Strings
import BlockLang.Toml.Reader

/-!
# Lines of documents

The lines that are written for plain entries and for headers are read back. Main statements: the
line of an entry is read as a pair, and the line of a header as the header of a table in a list.
-/

namespace BlockLang.Toml

/-! ## Blanks -/

/-- A text that does not begin with a blank stays. -/
lemma skipBlanks_of_head {text : List Char} (h : ∀ c ∈ text.head?, isBlank c = false) :
    skipBlanks text = text := by
  cases text with
  | nil => rfl
  | cons c text =>
    have hc : ¬ isBlank c = true := by simpa using h c rfl
    exact List.dropWhile_cons_of_neg hc

/-! ## Keys -/

/-- A character that what is written for a key can begin with. -/
def IsKeyStart (c : Char) : Prop := isBareKeyChar c ∨ c = '"'

lemma IsKeyStart.ne {c d : Char} (h : IsKeyStart c) (hd : isBareKeyChar d = false)
    (hquote : d ≠ '"') : c ≠ d := by
  rintro rfl
  rcases h with h | rfl
  · rw [h] at hd
    cases hd
  · exact hquote rfl

lemma IsKeyStart.isBlank {c : Char} (h : IsKeyStart c) : isBlank c = false := by
  have hspace := h.ne (d := ' ') rfl (by decide)
  have htab := h.ne (d := '\t') rfl (by decide)
  simp [Toml.isBlank, hspace, htab]

/-- A key that is written begins as keys do. -/
lemma exists_writeKey_eq (key : List Char) : ∃ c tail, writeKey key = c :: tail ∧ IsKeyStart c := by
  rw [writeKey]
  split
  · rename_i h
    cases key with
    | nil => cases h
    | cons c key =>
      rw [Bool.and_eq_true, List.all_cons, Bool.and_eq_true] at h
      exact ⟨c, key, rfl, .inl h.2.1⟩
  · exact ⟨'"', _, rfl, .inr rfl⟩

lemma skipBlanks_writeKey (key rest : List Char) :
    skipBlanks (writeKey key ++ rest) = writeKey key ++ rest := by
  obtain ⟨c, tail, heq, hc⟩ := exists_writeKey_eq key
  apply skipBlanks_of_head
  rw [heq]
  rintro d ⟨⟩
  exact hc.isBlank

variable {limit : ℕ}

/-- A key is read back if no character of a key follows. -/
lemma readKey_writeKey (key : List Char) {rest : List Char}
    (hrest : ∀ c ∈ rest.head?, isBareKeyChar c = false) :
    readKey (writeKey key ++ rest) = some (key, rest) := by
  rw [writeKey]
  split
  · rename_i h
    rw [Bool.and_eq_true, Bool.not_eq_true', List.all_eq_true] at h
    obtain ⟨hne, hchars⟩ := h
    obtain ⟨htake, hdrop⟩ := Lexeme.takeWhile_dropWhile_append hchars hrest
    cases key with
    | nil => cases hne
    | cons c key =>
      have hc := hchars c List.mem_cons_self
      simp only [List.cons_append] at htake hdrop ⊢
      rw [readKey, htake, hdrop, if_neg (by simp)]
      · rintro rest' ⟨⟩
        cases hc
      · rintro rest' ⟨⟩
        cases hc
  · show readBasic (basicBody key ++ ['"'] ++ rest) = _
    rw [List.append_assoc]
    exact readBasic_basicBody key rest

/-- The last key of a path. -/
lemma readPath_writeKey (key : String) {rest : List Char} (hlimit : 0 < limit)
    (hrest : ∀ c ∈ rest.head?, isBareKeyChar c = false)
    (hdot : (skipBlanks rest).head? ≠ some '.') :
    readPath limit (writeKey key.toList ++ rest) = some (⟨[], key⟩, skipBlanks rest) := by
  obtain ⟨limit, rfl⟩ := Nat.exists_eq_succ_of_ne_zero hlimit.ne'
  rw [readPath, skipBlanks_writeKey, readKey_writeKey key.toList hrest]
  simp only [String.ofList_toList]
  split
  · rename_i heq
    rw [heq] at hdot
    exact absurd rfl hdot
  · rfl

/-- A key that is followed by others. -/
lemma readPath_dot (key : String) (rest : List Char) :
    readPath (limit + 1) (writeKey key.toList ++ '.' :: rest) =
      (readPath limit rest).map fun (path, left) => (⟨key :: path.parents, path.name⟩, left) := by
  have hrest : ∀ c ∈ ('.' :: rest).head?, isBareKeyChar c = false := by
    rintro c ⟨⟩
    rfl
  rw [readPath, skipBlanks_writeKey, readKey_writeKey key.toList hrest]
  simp only [String.ofList_toList]
  rfl

/-- What is written for the path of a header, without the brackets. -/
def pathText (path : KeyPath) : List Char :=
  ['.'].intercalate (path.toList.map fun key => writeKey key.toList)

/-- The path of a header is read back up to the bracket after it. -/
lemma readPath_pathText (path : KeyPath) (hlimit : path.parents.length < limit) (rest : List Char) :
    readPath limit (pathText path ++ ']' :: rest) = some (path, ']' :: rest) := by
  obtain ⟨parents, name⟩ := path
  induction parents generalizing limit with
  | nil =>
    show readPath limit (['.'].intercalate [writeKey name.toList] ++ ']' :: rest) = _
    rw [List.intercalate_singleton, readPath_writeKey name (Nat.zero_lt_of_lt hlimit)]
    · rfl
    · rintro c ⟨⟩
      rfl
    · rintro ⟨⟩
  | cons key parents ih =>
    obtain ⟨limit, rfl⟩ := Nat.exists_eq_succ_of_ne_zero (Nat.ne_zero_of_lt hlimit)
    have hinner := ih (Nat.lt_of_succ_lt_succ hlimit)
    have htext : pathText ⟨key :: parents, name⟩ ++ ']' :: rest =
        writeKey key.toList ++ '.' :: (pathText ⟨parents, name⟩ ++ ']' :: rest) := by
      have hne : (KeyPath.toList ⟨parents, name⟩).map (fun key => writeKey key.toList) ≠ [] := by
        simp [KeyPath.toList]
      show ['.'].intercalate (writeKey key.toList ::
        (KeyPath.toList ⟨parents, name⟩).map fun key => writeKey key.toList) ++ _ = _
      rw [List.intercalate_cons_of_ne_nil hne, List.append_assoc, List.append_assoc]
      rfl
    rw [htext, readPath_dot, hinner]
    rfl

/-! ## Values -/

/-- A value without tables in it that records can have. -/
inductive Value.Plain : Value → Prop
  | string (text : String) : Plain (.string text)
  | float (a : Float) : Plain (.float a)
  | boolean (b : Bool) : Plain (.boolean b)
  | nil : Plain (.array [])

section

variable {room : ℕ} {text rest : List Char} (hopen : ∀ c ∈ text.head?, c ≠ '[' ∧ c ≠ '{')
include hopen

/-- A string that is read is a value that is read. -/
lemma readValue_of_readString {body : List Char} (h : readString text = some (body, rest)) :
    ∃ shorter, readValue limit room text = some ⟨.string (.ofList body), rest, shorter⟩ := by
  refine ⟨readString_length_lt h, ?_⟩
  unfold readValue
  split
  · exact absurd rfl (hopen _ rfl).1
  · exact absurd rfl (hopen _ rfl).1
  · exact absurd rfl (hopen _ rfl).2
  · exact absurd rfl (hopen _ rfl).2
  · split
    · rename_i hread
      rw [h] at hread
      cases hread
      rfl
    · rename_i hread
      rw [h] at hread
      cases hread

/-- A scalar that is read is a value that is read, unless it is a string. -/
lemma readValue_of_readScalar {value : Value} (hstring : readString text = none)
    (h : readScalar text = some (value, rest)) :
    ∃ shorter, readValue limit room text = some ⟨value, rest, shorter⟩ := by
  refine ⟨readScalar_length_lt h, ?_⟩
  unfold readValue
  split
  · exact absurd rfl (hopen _ rfl).1
  · exact absurd rfl (hopen _ rfl).1
  · exact absurd rfl (hopen _ rfl).2
  · exact absurd rfl (hopen _ rfl).2
  · split
    · rename_i hread
      rw [hstring] at hread
      cases hread
    · split
      · rename_i hread
        rw [h] at hread
        cases hread
        rfl
      · rename_i hread
        rw [h] at hread
        cases hread

end

/-- An empty list. -/
lemma readValue_nil {room : ℕ} (hroom : 0 < room) (rest : List Char) :
    ∃ shorter, readValue limit room ('[' :: ']' :: rest) = some ⟨.array [], rest, shorter⟩ := by
  obtain ⟨room, rfl⟩ := Nat.exists_eq_succ_of_ne_zero hroom.ne'
  have htrivia : skipTrivia (']' :: rest) = ']' :: rest := by
    rw [skipTrivia, if_neg (by decide), if_neg (by decide)]
  have hitems : ∃ shorter, readItems limit room (']' :: rest) = some ⟨[], rest, shorter⟩ := by
    refine ⟨by simp only [List.length_cons]; omega, ?_⟩
    unfold readItems
    split
    · rename_i rest' start
      rw [htrivia] at start
      cases start
      rfl
    · rename_i hother
      exact absurd htrivia (hother rest)
  obtain ⟨shorter, hitems⟩ := hitems
  refine ⟨by simp only [List.length_cons]; omega, ?_⟩
  rw [readValue, hitems]
  rfl

/-- What is written for a text begins with a quote. -/
lemma head?_writeString (text : List Char) :
    (writeString text).head? = some '"' ∨ (writeString text).head? = some '\'' := by
  rw [writeString]
  split
  · exact .inl rfl
  · exact .inr rfl
  · exact .inl rfl
  · exact .inr rfl

/-- A value without quotes and brackets begins with one of its characters. -/
lemma head?_of_readScalar {text rest : List Char} {value : Value}
    (h : readScalar text = some (value, rest)) : ∀ c ∈ text.head?, isScalarChar c := by
  cases text with
  | nil => cases h
  | cons c text =>
    rintro d ⟨⟩
    by_contra hc
    rw [readScalar, List.takeWhile_cons_of_neg hc] at h
    cases h

lemma readString_of_head {text : List Char} (h : ∀ c ∈ text.head?, isScalarChar c) :
    readString text = none := by
  unfold readString
  split
  · cases h _ rfl
  · cases h _ rfl
  · cases h _ rfl
  · cases h _ rfl
  · rfl

lemma readValue_scalar {room : ℕ} {text rest : List Char} {value : Value}
    (h : readScalar text = some (value, rest)) :
    ∃ shorter, readValue limit room text = some ⟨value, rest, shorter⟩ := by
  have hhead := head?_of_readScalar h
  refine readValue_of_readScalar ?_ (readString_of_head hhead) h
  intro c hc
  have hscalar := hhead c hc
  constructor <;> rintro rfl <;> cases hscalar

/-- A value that is written on a line is read back up to the end of the line. -/
theorem readValue_writeInline {room : ℕ} (hroom : 0 < room) {value : Value} (h : value.Plain)
    (rest : List Char) :
    ∃ shorter, readValue limit room (writeInline value ++ '\n' :: rest) =
      some ⟨value, '\n' :: rest, shorter⟩ := by
  have hrest : ∀ c ∈ ('\n' :: rest).head?, isScalarChar c = false := by
    rintro c ⟨⟩
    rfl
  cases h with
  | string text =>
    have hread := readString_writeString text.toList rest
    rw [writeInline]
    -- A string begins with a quote of one kind, so it is taken for no array and no table.
    have hopen : ∀ c ∈ (writeString text.toList ++ '\n' :: rest).head?, c ≠ '[' ∧ c ≠ '{' := by
      rw [List.head?_append]
      intro c hc
      rcases head?_writeString text.toList with h | h
      · rw [h] at hc
        cases hc
        decide
      · rw [h] at hc
        cases hc
        decide
    have hvalue : ∃ shorter, readValue limit room (writeString text.toList ++ '\n' :: rest) =
        some ⟨.string (.ofList text.toList), '\n' :: rest, shorter⟩ :=
      readValue_of_readString hopen hread
    rwa [String.ofList_toList] at hvalue
  | float a =>
    rw [writeInline]
    exact readValue_scalar (readScalar_write hrest a)
  | boolean b => exact readValue_scalar (readScalar_boolean hrest b)
  | nil =>
    rw [writeInline]
    exact readValue_nil hroom ('\n' :: rest)

lemma isBlank_of_isScalarChar {c : Char} (h : isScalarChar c) : isBlank c = false := by
  by_contra hblank
  rw [Bool.not_eq_false, isBlank, Bool.or_eq_true, beq_iff_eq, beq_iff_eq] at hblank
  rcases hblank with rfl | rfl <;> cases h

/-- No blanks are skipped in front of a value. -/
lemma skipBlanks_writeInline {value : Value} (h : value.Plain) (rest : List Char) :
    skipBlanks (writeInline value ++ '\n' :: rest) = writeInline value ++ '\n' :: rest := by
  have hrest : ∀ c ∈ ('\n' :: rest).head?, isScalarChar c = false := by
    rintro c ⟨⟩
    rfl
  apply skipBlanks_of_head
  intro c hc
  cases h with
  | string text =>
    rw [writeInline, List.head?_append] at hc
    rcases head?_writeString text.toList with h | h
    · rw [h] at hc
      cases hc
      rfl
    · rw [h] at hc
      cases hc
      rfl
  | float a =>
    rw [writeInline] at hc
    exact isBlank_of_isScalarChar (head?_of_readScalar (readScalar_write hrest a) c hc)
  | boolean b =>
    exact isBlank_of_isScalarChar (head?_of_readScalar (readScalar_boolean hrest b) c hc)
  | nil =>
    rw [writeInline] at hc
    cases hc
    rfl

/-! ## Lines -/

/-- A line that is not blank is read and the lines after it are read from its end on. -/
lemma readLines_of_readLine {text rest : List Char} {c : Char} {line : Line}
    (hblank : isBlank c = false) (hcomment : c ≠ '#') (hnewline : c ≠ '\n')
    (h : readLine limit (c :: text) = some (line, '\n' :: rest)) :
    readLines limit (c :: text) = (readLines limit rest).map (line :: ·) := by
  have hskip : skipBlanks (c :: text) = c :: text := by
    apply skipBlanks_of_head
    rintro d ⟨⟩
    exact hblank
  have hend : readLineEnd (c :: text) = none := by
    have hskipComment : skipComment (c :: text) = c :: text := by
      rw [skipComment]
      rintro rest ⟨⟩
      exact hcomment rfl
    rw [readLineEnd, hskip, hskipComment]
    split
    · rename_i heq
      cases heq
    · rename_i heq
      cases heq
      exact absurd rfl hnewline
    · rfl
  have hended : readLineEnd ('\n' :: rest) = some rest := rfl
  -- The line is not passed over as a blank one, it is read, and a line end follows it.
  rw [readLines, dif_neg (by simp)]
  split
  · rename_i hsome
    rw [hend] at hsome
    cases hsome
  · split
    · rename_i hnone
      rw [hskip, h] at hnone
      cases hnone
    · rename_i hline
      rw [hskip, h] at hline
      cases hline
      split
      · rename_i hnone
        rw [hended] at hnone
        cases hnone
      · rename_i hsome
        rw [hended] at hsome
        cases hsome
        rfl

/-- An empty line is passed over. -/
lemma readLines_newline (rest : List Char) :
    readLines limit ('\n' :: rest) = readLines limit rest := by
  have hend : readLineEnd ('\n' :: rest) = some rest := rfl
  rw [readLines, dif_neg (by simp)]
  split
  · rename_i hsome
    rw [hend] at hsome
    cases hsome
    rfl
  · rename_i hnone
    rw [hend] at hnone
    cases hnone

/-- The line of a plain entry. -/
def pairText (key : String) (value : Value) : List Char :=
  writeKey key.toList ++ [' ', '=', ' '] ++ writeInline value ++ ['\n']

/-- The key of a line is read back. -/
lemma readPath_pairText (key : String) (value : Value) (hlimit : 0 < limit) (rest : List Char) :
    readPath limit (pairText key value ++ rest) =
      some (⟨[], key⟩, '=' :: ' ' :: (writeInline value ++ '\n' :: rest)) := by
  have htext : pairText key value ++ rest =
      writeKey key.toList ++ (' ' :: '=' :: ' ' :: (writeInline value ++ '\n' :: rest)) := by
    simp [pairText]
  rw [htext]
  apply readPath_writeKey key hlimit
  · rintro c ⟨⟩
    rfl
  · rintro ⟨⟩

/-- A line with a key and a value is read back. -/
lemma readPair_pairText (key : String) {value : Value} (h : value.Plain) (hlimit : 0 < limit)
    (rest : List Char) :
    ∃ shorter, readPair limit limit (pairText key value ++ rest) =
      some ⟨(⟨[], key⟩, value), '\n' :: rest, shorter⟩ := by
  have hpath := readPath_pairText key value hlimit rest
  have hskip : skipBlanks (' ' :: (writeInline value ++ '\n' :: rest)) =
      writeInline value ++ '\n' :: rest := skipBlanks_writeInline h rest
  have hvalue : ∃ shorter, readValue limit limit (writeInline value ++ '\n' :: rest) =
      some ⟨value, '\n' :: rest, shorter⟩ := readValue_writeInline hlimit h rest
  rw [← hskip] at hvalue
  obtain ⟨shorter, hvalue⟩ := hvalue
  refine ⟨?_, ?_⟩
  · have hlength : ('\n' :: rest).length < (writeInline value ++ '\n' :: rest).length := by
      rwa [hskip] at shorter
    simp only [pairText, List.length_append] at hlength ⊢
    simp only [List.length_cons, List.length_nil]
    omega
  · unfold readPair
    split
    · rename_i path rest' named
      rw [hpath] at named
      cases named
      rw [hvalue]
      rfl
    · rename_i hother
      exact absurd hpath (hother _ _)

/-- The line of a plain entry is read as a pair. -/
theorem readLines_pairText (key : String) {value : Value} (h : value.Plain) (hlimit : 0 < limit)
    (rest : List Char) :
    readLines limit (pairText key value ++ rest) =
      (readLines limit rest).map (.pair ⟨[], key⟩ value :: ·) := by
  obtain ⟨shorter, hpair⟩ := readPair_pairText key h hlimit rest
  obtain ⟨c, tail, hkey, hc⟩ := exists_writeKey_eq key.toList
  have htext : pairText key value ++ rest =
      c :: (tail ++ ' ' :: '=' :: ' ' :: (writeInline value ++ '\n' :: rest)) := by
    simp [pairText, hkey]
  have hline : readLine limit (pairText key value ++ rest) =
      some (.pair ⟨[], key⟩ value, '\n' :: rest) := by
    have hopen : c ≠ '[' := hc.ne rfl (by decide)
    unfold readLine
    split
    · rename_i heq
      rw [htext] at heq
      exact absurd (List.cons.inj heq).1 hopen
    · rename_i heq
      rw [htext] at heq
      exact absurd (List.cons.inj heq).1 hopen
    · rw [hpair]
      rfl
  rw [htext] at hline ⊢
  exact readLines_of_readLine hc.isBlank (hc.ne rfl (by decide)) (hc.ne rfl (by decide)) hline

/-- The line of a header is read as the header of a table in a list. -/
theorem readLines_sectionHeader (path : KeyPath) (hlimit : path.parents.length < limit)
    (rest : List Char) :
    readLines limit (sectionHeader path.toList ++ rest) =
      (readLines limit rest).map (.itemHeader path :: ·) := by
  have htext : sectionHeader path.toList ++ rest =
      '[' :: '[' :: (pathText path ++ ']' :: ']' :: '\n' :: rest) := by
    simp [sectionHeader, pathText]
  have hpath := readPath_pathText path hlimit (']' :: '\n' :: rest)
  rw [htext]
  apply readLines_of_readLine
  · rfl
  · decide
  · decide
  · rw [readLine, hpath]
    rfl

/-! ## Carriage returns -/

lemma return_not_mem_writeKey (key : List Char) : '\r' ∉ writeKey key := by
  rw [writeKey]
  split
  · rename_i h
    rw [Bool.and_eq_true, List.all_eq_true] at h
    intro hmem
    cases h.2 _ hmem
  · simp [return_not_mem_basicBody key]

lemma return_not_mem_writeInline {value : Value} (h : value.Plain) :
    '\r' ∉ writeInline value := by
  cases h with
  | string text =>
    rw [writeInline]
    exact return_not_mem_writeString text.toList
  | float a =>
    rw [writeInline]
    intro hmem
    cases isScalarChar_of_mem_write hmem
  | boolean b => cases b <;> rw [writeInline] <;> decide
  | nil =>
    rw [writeInline]
    decide

lemma return_not_mem_sectionHeader (path : List String) : '\r' ∉ sectionHeader path := by
  have hpath : '\r' ∉ ['.'].intercalate (path.map fun key => writeKey key.toList) := by
    induction path with
    | nil => simp
    | cons key path ih =>
      have hkey := return_not_mem_writeKey key.toList
      cases path with
      | nil => simpa using hkey
      | cons next path =>
        rw [List.map_cons, List.intercalate_cons_of_ne_nil (by simp)]
        simpa [hkey] using ih
  simp [sectionHeader, hpath]

end BlockLang.Toml
