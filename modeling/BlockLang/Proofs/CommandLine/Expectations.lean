import BlockLang.Proofs.CommandLine.Keys
import BlockLang.TestSuite
import Mathlib.Data.List.DropRight
import Mathlib.Data.List.Infix

/-!
# What a test file expects

What it means that the run of a test meets all that its file expects. Main statement: a test has no
reason to fail if and only if its text can be read as a document, the keys of the document say what
a test file is, and the run that they ask for is as they expect it in each respect, so that an
expectation that is met hides no other.
-/

namespace BlockLang

/-! ## Trimmed texts -/

namespace Text

/-- What is left of a text without the characters at either end that pass the test. -/
def IsTrimmed (test : Char → Bool) (text trimmed : String) : Prop :=
  ∃ before after : List Char, text.toList = before ++ trimmed.toList ++ after ∧
    (∀ c ∈ before ++ after, test c = true) ∧
    (∀ c, trimmed.toList.head? = some c → test c = false) ∧
    ∀ c, trimmed.toList.getLast? = some c → test c = false

variable {test : Char → Bool} {text trimmed : String} {c : Char} {cs : List Char}

/-- What is left after dropping begins with a character that is not dropped. -/
lemma eq_false_of_head?_dropWhile (h : (cs.dropWhile test).head? = some c) : test c = false := by
  have hnot := List.head?_dropWhile_not test cs
  rwa [h] at hnot

/-- No more is dropped than what stands in front. -/
lemma dropWhile_append_eq {before : List Char} (hbefore : ∀ c ∈ before, test c = true)
    (hhead : ∀ c, cs.head? = some c → test c = false) : (before ++ cs).dropWhile test = cs := by
  rw [List.dropWhile_append_of_pos hbefore]
  cases cs with
  | nil => rfl
  | cons c cs => rw [List.dropWhile_cons_of_neg (Bool.eq_false_iff.mp (hhead c rfl))]

/-- A text that is trimmed lacks what passes the test at both ends, and nothing else. -/
lemma isTrimmed_trimWhere (test : Char → Bool) (text : String) :
    IsTrimmed test text (trimWhere test text) := by
  set inner := text.toList.dropWhile test
  have htext : text.toList.takeWhile test ++ inner = text.toList := List.takeWhile_append_dropWhile
  have hsplit : inner.rdropWhile test ++ inner.rtakeWhile test = inner :=
    List.rdropWhile_append_rtakeWhile
  have htrim : (trimWhere test text).toList = inner.rdropWhile test := by
    rw [trimWhere, String.toList_ofList, List.rdropWhile]
  refine ⟨text.toList.takeWhile test, inner.rtakeWhile test, ?_, ?_, ?_, ?_⟩
  · rw [htrim, List.append_assoc, hsplit, htext]
  · intro c hc
    rcases List.mem_append.mp hc with hmem | hmem
    · exact List.mem_takeWhile_imp hmem
    · exact List.mem_rtakeWhile_imp hmem
  · intro c hhead
    rw [htrim] at hhead
    have hfirst : inner.head? = some c := by
      rw [← hsplit, List.head?_append, hhead, Option.some_or]
    exact eq_false_of_head?_dropWhile hfirst
  · intro c hlast
    rw [htrim, List.rdropWhile, List.getLast?_reverse] at hlast
    exact eq_false_of_head?_dropWhile hlast

/-- There is one way to trim a text. -/
lemma isTrimmed_iff : IsTrimmed test text trimmed ↔ trimmed = trimWhere test text := by
  constructor
  · rintro ⟨before, after, htext, houter, hhead, hlast⟩
    rw [← String.toList_inj, trimWhere, String.toList_ofList, htext]
    have hbefore : ∀ c ∈ before, test c = true := fun c hc => houter c (List.mem_append_left _ hc)
    have hafter : ∀ c ∈ after, test c = true := fun c hc => houter c (List.mem_append_right _ hc)
    cases hcs : trimmed.toList with
    | nil =>
      -- Nothing is left, and the characters before the text and after it are as one.
      have hall : (before ++ after).dropWhile test = [] := List.dropWhile_eq_nil_iff.mpr houter
      rw [List.append_nil, hall, List.reverse_nil, List.dropWhile_nil, List.reverse_nil]
    | cons c cs =>
      rw [hcs] at hhead hlast
      have hfirst : ∀ d, (c :: cs ++ after).head? = some d → test d = false := hhead
      have hend : ∀ d, (c :: cs).reverse.head? = some d → test d = false := by
        rwa [List.head?_reverse]
      rw [List.append_assoc, dropWhile_append_eq hbefore hfirst, List.reverse_append,
        dropWhile_append_eq (fun d hd => hafter d (List.mem_reverse.mp hd)) hend,
        List.reverse_reverse]
  · rintro rfl
    exact isTrimmed_trimWhere test text

/-- A pattern occurs in a text if it is some of its characters in a row. -/
lemma occursIn_iff {pattern text : List Char} :
    occursIn pattern text = true ↔ pattern <:+: text := by
  induction text with
  | nil => rw [occursIn, List.isEmpty_iff, List.infix_nil]
  | cons c text ih =>
    rw [occursIn, Bool.or_eq_true, List.isPrefixOf_iff_prefix, ih, List.infix_cons_iff]

end Text

/-! ## Expectations that are met -/

namespace TestFile

variable {outcome : Outcome Buffer} {problem : Option Problem} {ds : List Diagnostic}
  {parts : List String}

/-- What the program variable begins with: the number that the test gives, or else that of its
problem, or else zero. -/
inductive BeginsWith (test : TestFile) : Float → Prop
  | given {x : Float} (h : test.initial = some x) : BeginsWith test x
  | problem {problem : Problem} (hinitial : test.initial = none)
      (hproblem : test.file.problem = some problem) : BeginsWith test problem.initialValue
  | zero (hinitial : test.initial = none) (hproblem : test.file.problem = none) : BeginsWith test 0

/-- The program in the slots of the test is run within its limits, with output in memory. -/
def EndsWith (test : TestFile) (clock : Clock) (outcome : Outcome Buffer) : Prop :=
  ∃ x, test.BeginsWith x ∧ outcome =
    (Program.ofRecords test.file.slots {}).1.run (test.file.limits.setting clock none none) x {}

/-- The outcome of the run is all that the test expects. Whether the problem is solved can be
expected only of a test that has one, and NaN is expected to be NaN. -/
structure Meets (test : TestFile) (outcome : Outcome Buffer) : Prop where
  value : ∀ expected, test.value = some expected →
    (outcome.value == expected) = true ∨ outcome.value.isNaN = true ∧ expected.isNaN = true
  output : ∀ expected, test.output = some expected → ∃ trimmed,
    Text.IsTrimmed Text.isWhiteSpace outcome.channel.text trimmed ∧
      Text.IsTrimmed Text.isWhiteSpace expected trimmed
  solved : ∀ expected, test.solved = some expected → ∃ problem,
    test.file.problem = some problem ∧ problem.isSolved outcome.value = expected
  interrupted : ∀ expected, test.interrupted = some expected →
    outcome.interrupted.isSome = expected
  diagnostics : ∀ parts, test.diagnostics = some parts →
    List.Forall₂ (fun d part => part.toList <:+: d.message.toList) outcome.diagnostics parts

/-- A test begins with one number. -/
lemma beginsWith_iff {test : TestFile} {x : Float} :
    test.BeginsWith x ↔ x = test.file.initialValue test.initial := by
  rw [ProgramFile.initialValue]
  constructor
  · rintro (h | ⟨hinitial, hproblem⟩ | ⟨hinitial, hproblem⟩)
    · rw [h]
      rfl
    · rw [hinitial, hproblem]
      rfl
    · rw [hinitial, hproblem]
      rfl
  · rintro rfl
    cases hinitial : test.initial with
    | some x => exact .given hinitial
    | none =>
      cases hproblem : test.file.problem with
      | some problem => exact .problem hinitial hproblem
      | none => exact .zero hinitial hproblem

/-- A test has one run. -/
lemma endsWith_iff {test : TestFile} {clock : Clock} :
    test.EndsWith clock outcome ↔ outcome = test.run clock := by
  simp only [EndsWith, beginsWith_iff, exists_eq_left]
  rfl

/-- A value is as expected if it is equal, or if neither is a number. -/
lemma checkValue_eq_none_iff {actual expected : Float} :
    checkValue actual expected = none ↔
      (actual == expected) = true ∨ actual.isNaN = true ∧ expected.isNaN = true := by
  simp [checkValue, or_iff_not_imp_left]

/-- Outputs are compared without white space at either end. -/
lemma checkOutput_eq_none_iff {actual expected : String} :
    checkOutput actual expected = none ↔ ∃ trimmed,
      Text.IsTrimmed Text.isWhiteSpace actual trimmed ∧
        Text.IsTrimmed Text.isWhiteSpace expected trimmed := by
  have htrim : (∃ trimmed, Text.IsTrimmed Text.isWhiteSpace actual trimmed ∧
      Text.IsTrimmed Text.isWhiteSpace expected trimmed) ↔
        Text.trim actual = Text.trim expected := by
    simp only [Text.isTrimmed_iff, exists_eq_left, Text.trim]
  rw [htrim, checkOutput]
  split
  next heq => exact iff_of_true rfl heq
  next hne => exact iff_of_false (Option.some_ne_none _) hne

/-- Without a problem no answer about its solution is as expected. -/
lemma checkSolved_eq_none_iff {value : Float} {expected : Bool} :
    checkSolved problem value expected = none ↔
      ∃ p, problem = some p ∧ p.isSolved value = expected := by
  cases problem with
  | none => simp [checkSolved]
  | some p => simp [checkSolved]

/-- It does not matter what interrupts a run. -/
lemma checkInterrupted_eq_none_iff {actual : Option Interruption} {expected : Bool} :
    checkInterrupted actual expected = none ↔ actual.isSome = expected := by
  simp [checkInterrupted]

/-- Messages of which there are as many as expected are looked at one by one. -/
lemma checkMessages_eq_none_iff (index : Nat) (hlength : ds.length = parts.length) :
    checkMessages index ds parts = none ↔
      List.Forall₂ (fun d part => part.toList <:+: d.message.toList) ds parts := by
  induction ds generalizing index parts with
  | nil =>
    obtain rfl := List.length_eq_zero_iff.mp hlength.symm
    simp [checkMessages]
  | cons d ds ih =>
    cases parts with
    | nil => cases hlength
    | cons part parts =>
      have hrest : ds.length = parts.length := Nat.succ.inj hlength
      rw [checkMessages, List.forall₂_cons, ← Text.occursIn_iff, ← ih (index + 1) hrest]
      cases Text.occursIn part.toList d.message.toList <;> simp

/-- There have to be as many diagnostics as expected, each with its part of a message. -/
lemma checkDiagnostics_eq_none_iff :
    checkDiagnostics ds parts = none ↔
      List.Forall₂ (fun d part => part.toList <:+: d.message.toList) ds parts := by
  rw [checkDiagnostics]
  split
  next hlength => exact checkMessages_eq_none_iff 0 hlength
  next hlength => simpa using fun h : List.Forall₂ _ ds parts => hlength (List.Forall₂.length_eq h)

/-- No expectation of a test hides another. -/
lemma mismatch?_eq_none_iff_meets {test : TestFile} {clock : Clock} :
    test.mismatch? clock = none ↔ test.Meets (test.run clock) := by
  have hbind {α : Type} (o : Option α) (check : α → Option Mismatch) :
      o.bind check = none ↔ ∀ expected, o = some expected → check expected = none := by
    cases o <;> simp
  simp only [mismatch?, List.findSome?_eq_none_iff, List.forall_mem_cons, id, hbind,
    checkValue_eq_none_iff, checkOutput_eq_none_iff, checkSolved_eq_none_iff,
    checkInterrupted_eq_none_iff, checkDiagnostics_eq_none_iff]
  constructor
  · rintro ⟨hvalue, houtput, hsolved, hinterrupted, hdiagnostics, -⟩
    exact ⟨hvalue, houtput, hsolved, hinterrupted, hdiagnostics⟩
  · rintro ⟨hvalue, houtput, hsolved, hinterrupted, hdiagnostics⟩
    exact ⟨hvalue, houtput, hsolved, hinterrupted, hdiagnostics, List.forall_mem_nil _⟩

end TestFile

/-! ## Tests that pass -/

/-- A result is told under the path of the test. -/
lemma TestResult.path_of (clock : Clock) (path name : String)
    (content : Except FileFault String) : (TestResult.of clock path name content).path = path := by
  fun_cases TestResult.of <;> rfl

namespace FoundTest

variable {test : FoundTest} {clock : Clock}

/-- The text of a test can be read as a document, the keys of the document say what the test file
is, and its run ends with all that the file expects. -/
def Passes (test : FoundTest) (clock : Clock) : Prop :=
  ∃ text document, test.content = .ok text ∧ Toml.read text = some document ∧
    ∃ file : TestFile, file.WrittenIn document ∧
      ∃ outcome, file.EndsWith clock outcome ∧ file.Meets outcome

/-- The result of a test, given the path of the folder that was searched. -/
def result (test : FoundTest) (clock : Clock) (root : String) : TestResult :=
  .of clock (test.fullPath root) test.name test.content

/-- What the keys of a document say is what is read from them. -/
lemma passes_iff : test.Passes clock ↔ ∃ text file, test.content = .ok text ∧
    TestFile.ofText? text = some file ∧ file.Meets (file.run clock) := by
  simp only [Passes, TestFile.endsWith_iff, exists_eq_left, TestFile.ofText?, Option.bind_eq_bind,
    Option.bind_eq_some_iff, TestFile.ofTable?_eq_some_iff]
  constructor
  · rintro ⟨text, document, hcontent, hread, file, hfile, hmeets⟩
    exact ⟨text, file, hcontent, ⟨document, hread, hfile⟩, hmeets⟩
  · rintro ⟨text, file, hcontent, ⟨document, hread, hfile⟩, hmeets⟩
    exact ⟨text, document, hcontent, hread, file, hfile, hmeets⟩

/-- A test has no reason to fail if and only if it passes. -/
theorem failure_eq_none_iff (root : String) :
    (test.result clock root).failure = none ↔ test.Passes clock := by
  rw [passes_iff]
  cases hcontent : test.content with
  | error fault => simp [result, TestResult.of, hcontent]
  | ok text =>
    cases hfile : TestFile.ofText? text with
    | none => simp [result, TestResult.of, hcontent, hfile]
    | some file =>
      simp [result, TestResult.of, hcontent, hfile, TestFile.mismatch?_eq_none_iff_meets]

end FoundTest

end BlockLang
