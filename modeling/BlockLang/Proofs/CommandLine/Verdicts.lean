import BlockLang.CommandLine.Reply
import BlockLang.Proofs.Run.Rollback
import BlockLang.Proofs.Toml.Prepended

/-!
# Verdicts on a program file

A program file can be run, and it can be tested once it says that its problem is to be solved by a
run that is not cut short. Main statement: the run exits with success if and only if the test
passes, and it prints a verdict if and only if it was not cut short.
-/

namespace BlockLang

/-! ## The same run on different clocks -/

/-- A run that was not interrupted is the one that nothing can interrupt. -/
lemma Program.run_eq_uninterrupted {ω : Type} {p : Program} {setting : Setting ω} {initial : Float}
    {channel : ω} (h : (p.run setting initial channel).interrupted = none) :
    p.run setting initial channel = p.run setting.uninterrupted initial channel := by
  rcases runSlots_eq_or_cut setting p.blocks initial { channel } rfl with
    heq | ⟨before, k, after, why, t, -, hcut, -⟩
  · exact heq
  · rw [run, hcut] at h
    cases h

namespace ProgramFile

variable {file : ProgramFile} {clock clock' : Clock} {x : Float}

/-- The clock does not matter if the time limit is over at the same time on both, or in no run. -/
lemma run_eq_run
    (h : ∀ limit, file.limits.timeLimit = some limit → clock limit = clock' limit ∨
      (file.run file.limits clock x).interrupted = none ∧
        (file.run file.limits clock' x).interrupted = none) :
    file.run file.limits clock x = file.run file.limits clock' x := by
  have hsame (heq : file.limits.timeLimit.bind clock = file.limits.timeLimit.bind clock') :
      file.run file.limits clock x = file.run file.limits clock' x := by
    rw [run, run, Limits.setting, Limits.setting, heq]
  cases hlimit : file.limits.timeLimit with
  | none =>
    apply hsame
    rw [hlimit]
    rfl
  | some limit =>
    rcases h limit hlimit with hclock | ⟨hnone, hnone'⟩
    · apply hsame
      rw [hlimit]
      exact hclock
    · rw [run, run, Program.run_eq_uninterrupted hnone, Program.run_eq_uninterrupted hnone']
      rfl

end ProgramFile

/-! ## Reading a file as a test -/

namespace TestFile

/-- The names of the fields that a test file has beside those of a program file. -/
def ownNames : List String :=
  ["description", "initial", "expect_value", "expect_output", "expect_solved",
    "expect_interrupted", "expect_diagnostics"]

/-- The expectations that the problem is solved and that the run is not cut short. -/
def solvedInTime : Toml.Table :=
  [("expect_solved", .boolean true), ("expect_interrupted", .boolean false)]

/-- The second document has what the first one has, and these expectations. -/
def Demands (document document' : Toml.Table) : Prop :=
  ∀ key, document'.lookup key = (solvedInTime.lookup key).or (document.lookup key)

variable {document document' : Toml.Table} {file : ProgramFile} {text : String}

/-- A document is given the expectations by putting them in front. -/
lemma demands_append (document : Toml.Table) : Demands document (solvedInTime ++ document) :=
  fun _ => List.lookup_append

/-- A document in which the expectations are missing can be given them. -/
lemma read_prepend (hread : Toml.read text = some document)
    (hown : ∀ name ∈ ownNames, document.lookup name = none) :
    Toml.read (Toml.prepend solvedInTime text) = some (solvedInTime ++ document) := by
  have hplain : Toml.plainEntries solvedInTime = solvedInTime := rfl
  have hregular : Toml.RegularEntries solvedInTime := by
    simp [solvedInTime, Toml.RegularEntries, Toml.Value.Regular, Toml.Value.isTable]
  have hread' : Toml.readWithin Toml.depthLimit text = some document := hread
  rw [Toml.read, Toml.readWithin_prepend (by decide) hregular (by decide) hread', hplain]
  intro key hkey hmem
  have hnames : ∀ name ∈ solvedInTime.map Prod.fst, name ∈ ownNames := by decide
  have hname : key ∈ ownNames := hnames key (by rwa [hplain] at hkey)
  obtain ⟨⟨name, value⟩, hentry, rfl⟩ := List.mem_map.mp hmem
  have hnone := List.lookup_eq_none_iff.mp (hown name hname) (name, value) hentry
  simp at hnone

/-- A program file is read by three of its names. -/
lemma ofTable?_congr {surplus : Toml.Surplus}
    (h : ∀ name ∈ ["problem", "limits", "slots"], document'.lookup name = document.lookup name) :
    ProgramFile.ofTable? surplus document' = ProgramFile.ofTable? surplus document := by
  have hproblem := h "problem" (by simp)
  have hlimits := h "limits" (by simp)
  have hslots := h "slots" (by simp)
  simp only [ProgramFile.ofTable?, BlockRecord.slots?, Toml.Fields.optional,
    Toml.Fields.withDefault, hproblem, hlimits, hslots]

/-- A field is read the same by readers that read its value the same. -/
lemma optional_congr {α β : Type} {fields : Toml.Fields α} {name : String} {f g : α → Option β}
    (h : ∀ part, fields.lookup name = some part → f part = g part) :
    fields.optional name f = fields.optional name g := by
  rw [Toml.Fields.optional, Toml.Fields.optional]
  cases hpart : fields.lookup name with
  | none => rfl
  | some part => simp only [h part hpart]

/-- However strictly a document is read, it says the same if its problem and its limits are not
lists. -/
lemma ofTable?_refuse_eq_ignore
    (h : ∀ name ∈ ["problem", "limits"], ∀ items, document.lookup name ≠ some (.array items)) :
    ProgramFile.ofTable? .refuse document = ProgramFile.ofTable? .ignore document := by
  have hfields {α : Type} (name : String) (hname : name ∈ ["problem", "limits"])
      (names : List String) (ofFields? : Toml.Fields Toml.Value → Option α) :
      Toml.Fields.optional document name
          (fun value => (value.fields? .refuse names).bind ofFields?) =
        Toml.Fields.optional document name
          (fun value => (value.fields? .ignore names).bind ofFields?) := by
    refine optional_congr fun value hvalue => ?_
    cases value with
    | array items => exact absurd hvalue (h name hname items)
    | _ => rfl
  simp only [ProgramFile.ofTable?, Toml.Fields.withDefault, hfields "problem" (by simp),
    hfields "limits" (by simp)]

/-- The test file that such a document is read as. -/
lemma ofTable?_of_demands (hdemands : Demands document document')
    (hown : ∀ name ∈ ownNames, document.lookup name = none)
    (hfile : ProgramFile.ofTable? .refuse document = some file) :
    ofTable? document' = some { solved := some true, interrupted := some false, file } := by
  have hnone (name : String) (hname : name ∈ ownNames) (hother : solvedInTime.lookup name = none) :
      document'.lookup name = none := by
    rw [hdemands, hother, hown name hname]
    rfl
  -- What is said of the program is not touched by the two keys in front.
  have hfile' : ProgramFile.ofTable? .refuse document' = some file := by
    rw [← hfile]
    apply ofTable?_congr
    intro name hname
    have hother : solvedInTime.lookup name = none := by
      revert name
      decide
    rw [hdemands, hother]
    rfl
  have hsolved : document'.lookup "expect_solved" = some (.boolean true) := by
    rw [hdemands]
    rfl
  have hinterrupted : document'.lookup "expect_interrupted" = some (.boolean false) := by
    rw [hdemands]
    rfl
  have hdescription := hnone "description" (by simp [ownNames]) rfl
  have hinitial := hnone "initial" (by simp [ownNames]) rfl
  have hvalue := hnone "expect_value" (by simp [ownNames]) rfl
  have houtput := hnone "expect_output" (by simp [ownNames]) rfl
  have hdiagnostics := hnone "expect_diagnostics" (by simp [ownNames]) rfl
  simp only [ofTable?, Toml.Fields.optional, hdescription, hinitial, hvalue, houtput, hsolved,
    hinterrupted, hdiagnostics, hfile']
  rfl

/-- A test with these expectations passes if its run is not cut short and solves the problem. -/
lemma mismatch?_eq_none_iff {test : TestFile} {clock : Clock} {problem : Problem}
    (hvalue : test.value = none) (houtput : test.output = none)
    (hsolved : test.solved = some true) (hinterrupted : test.interrupted = some false)
    (hdiagnostics : test.diagnostics = none) (hproblem : test.file.problem = some problem) :
    test.mismatch? clock = none ↔ (test.run clock).interrupted = none ∧
      problem.isSolved (test.run clock).value = true := by
  simp only [mismatch?, hvalue, houtput, hsolved, hinterrupted, hdiagnostics, hproblem,
    Option.bind_none, Option.bind_some, checkSolved, checkInterrupted]
  cases problem.isSolved (test.run clock).value <;> cases (test.run clock).interrupted <;> simp

end TestFile

/-! ## What a run prints -/

namespace CommandLine

/-- A line about a diagnostic begins with `warning` or `error` or `runtime error`. -/
lemma head?_diagnosticLine (d : Diagnostic) :
    ∃ c ∈ ['w', 'e', 'r'], (diagnosticLine d).toList.head? = some c := by
  rw [diagnosticLine]
  cases d.complaint.excerpt? <;> cases d.isWarning <;> simp

/-- No line about a diagnostic begins as a verdict does. -/
lemma diagnosticLine_ne {start : String} (rest : String) (d : Diagnostic)
    (hstart : start.toList.head? = some 's' ∨ start.toList.head? = some 'n') :
    start ++ rest ≠ diagnosticLine d := by
  intro heq
  obtain ⟨c, hc, hhead⟩ := head?_diagnosticLine d
  rw [← heq, String.toList_append, List.head?_append] at hhead
  rcases hstart with h | h <;> rw [h] at hhead <;> cases hhead <;> simp at hc

namespace RunOptions

variable {o : RunOptions} {file : ProgramFile} {problem : Problem} {target : Float}

/-- A run prints its verdict after lines about diagnostics, if it was not cut short. -/
lemma exists_runReply_eq (o : RunOptions) (file : ProgramFile) (clock : Clock) :
    let initial := file.initialValue o.initial
    let outcome := file.run (o.limits file) clock initial
    let verdict := verdict (o.problem? file initial) outcome.value
    ∃ told : List Print, (∀ line, .message line ∈ told → ∃ d, line = diagnosticLine d) ∧
      o.runReply file clock =
        if outcome.interrupted.isSome then ⟨told, 1⟩ else ⟨told ++ verdict.1, verdict.2⟩ := by
  intro initial outcome verdict
  refine ⟨(if o.quiet then [] else [.output outcome.channel.text]) ++
    outcome.diagnostics.map (fun d => .message (diagnosticLine d)) ++
    [Reply.line ("x = " ++ Number.labelText outcome.value)], ?_, rfl⟩
  intro line hline
  rw [List.mem_append, List.mem_append] at hline
  rcases hline with (hprinted | hdiagnostic) | hvalue
  · split at hprinted <;> simp at hprinted
  · obtain ⟨d, -, heq⟩ := List.mem_map.mp hdiagnostic
    cases heq
    exact ⟨d, rfl⟩
  · simp [Reply.line] at hvalue

/-- A problem with a target has a verdict. -/
lemma verdict_eq (htarget : problem.targetValue = some target) (value : Float) :
    verdict (some problem) value =
      if problem.isSolved value then ([.message "solved"], 0)
      else ([.message ("not solved: expected " ++ Number.labelText target)], 1) := by
  simp only [verdict, Option.bind_some, htarget]

/-- A run exits with success if it has solved its problem, and prints a verdict if it was not cut
short. -/
lemma runReply_verdict (clock : Clock)
    (hproblem : o.problem? file (file.initialValue o.initial) = some problem)
    (htarget : problem.targetValue = some target) :
    let outcome := file.run (o.limits file) clock (file.initialValue o.initial)
    let reply := o.runReply file clock
    (reply.exitCode = 0 ↔
      outcome.interrupted = none ∧ problem.isSolved outcome.value = true) ∧
    (.message "solved" ∈ reply.prints ↔
      outcome.interrupted = none ∧ problem.isSolved outcome.value = true) ∧
    ((∃ rest, .message ("not solved" ++ rest) ∈ reply.prints) ↔
      outcome.interrupted = none ∧ problem.isSolved outcome.value = false) := by
  intro outcome reply
  obtain ⟨told, htold, hreply⟩ := exists_runReply_eq o file clock
  have hsolved : Print.message "solved" ∉ told := by
    intro hmem
    obtain ⟨d, hd⟩ := htold _ hmem
    exact diagnosticLine_ne "" d (.inl rfl) ((String.append_empty (s := "solved")).trans hd)
  have hnot (rest : String) : Print.message ("not solved" ++ rest) ∉ told := by
    intro hmem
    obtain ⟨d, hd⟩ := htold _ hmem
    exact diagnosticLine_ne rest d (.inr rfl) hd
  -- The two verdicts differ in their first letter, and so do both from what is told of
  -- diagnostics.
  have hother (rest : String) : "not solved" ++ rest ≠ "solved" := by
    intro heq
    have hhead := congrArg (fun text => text.toList.head?) heq
    simp at hhead
  have houtcome : file.run (o.limits file) clock (file.initialValue o.initial) = outcome := rfl
  have hreply' : o.runReply file clock = reply := rfl
  rw [hproblem, verdict_eq htarget, houtcome, hreply'] at hreply
  clear_value reply
  subst hreply
  cases outcome.interrupted with
  | some why => simp [hsolved, hnot]
  | none =>
    cases problem.isSolved outcome.value with
    | true => simp [hnot, hother]
    | false =>
      have hline : "not solved: expected " ++ Number.labelText target =
          "not solved" ++ (": expected " ++ Number.labelText target) := by
        rw [← String.append_assoc]
        rfl
      have hne := (hother (": expected " ++ Number.labelText target)).symm
      simp [hsolved, hline, hne]

/-- A file with a problem is run with no options that bear on the run. Once it is given the
expectations that the problem is solved and that the run is not cut short, which can be done in
front of its text, it is read as a test that has the same run. The run exits with success if and
only if the test passes. It prints that the problem is solved, or that it is not, if and only if it
was not cut short. The time limit has to be zero, or it is over in neither run; and the file has to
say the same when it is read as strictly as the files of tests are. -/
theorem exitCode_eq_zero_iff_test_passes (path : String) (quiet : Bool) (view : FileView)
    (clock clock' : Clock) (text : String) (document : Toml.Table) (file : ProgramFile)
    (problem : Problem) (target : Float)
    (hview : (view path).bind FileTree.text = .ok text) (hread : Toml.read text = some document)
    (hfile : ProgramFile.ofTable? .ignore document = some file)
    (hstrict : ProgramFile.ofTable? .refuse document = ProgramFile.ofTable? .ignore document)
    (hproblem : file.problem = some problem) (htarget : problem.targetValue = some target)
    (hown : ∀ name ∈ TestFile.ownNames, document.lookup name = none)
    (hclock : clock 0 = some 0 ∧ clock' 0 = some 0)
    (hlimit : ∀ limit, file.limits.timeLimit = some limit → limit = 0 ∨
      ∀ c ∈ [clock, clock'],
        (file.run file.limits c (file.initialValue none)).interrupted = none) :
    let o : RunOptions := { file := path, quiet }
    let outcome := file.run (o.limits file) clock (file.initialValue o.initial)
    let reply := o.reply view clock
    (∃ document', Toml.read (Toml.prepend TestFile.solvedInTime text) = some document' ∧
      TestFile.Demands document document') ∧
    (∀ text' document', Toml.read text' = some document' → TestFile.Demands document document' →
      (∃ test, TestFile.ofText? text' = some test ∧ test.file.program = file.program ∧
        test.file.initialValue test.initial = file.initialValue o.initial ∧
        test.file.limits = o.limits file ∧ test.run clock' = outcome) ∧
      ∀ testPath name, reply.exitCode = 0 ↔
        (TestResult.of clock' testPath name (.ok text')).failure = none) ∧
    (.message "solved" ∈ reply.prints ↔
      outcome.interrupted = none ∧ problem.isSolved outcome.value = true) ∧
    ((∃ rest, .message ("not solved" ++ rest) ∈ reply.prints) ↔
      outcome.interrupted = none ∧ problem.isSolved outcome.value = false) := by
  intro o outcome reply
  have htext : ProgramFile.ofText? text = some file := by
    rw [ProgramFile.ofText?, hread]
    exact hfile
  have hreply : reply = o.runReply file clock := by
    show o.reply view clock = _
    rw [RunOptions.reply, show (view o.file).bind FileTree.text = .ok text from hview]
    simp only [htext]
    rfl
  have hproblem' : o.problem? file (file.initialValue o.initial) = some problem := hproblem
  obtain ⟨hexit, hsolved, hnot⟩ := runReply_verdict clock hproblem' htarget
  rw [← hreply] at hexit hsolved hnot
  -- Two clocks lead to one run if the limit is zero or over in neither.
  have hsame : file.run file.limits clock' (file.initialValue none) = outcome := by
    refine ProgramFile.run_eq_run fun limit hsome => ?_
    rcases hlimit limit hsome with rfl | hnever
    · exact .inl (hclock.2.trans hclock.1.symm)
    · exact .inr ⟨hnever clock' (by simp), hnever clock (by simp)⟩
  refine ⟨⟨_, TestFile.read_prepend hread hown, TestFile.demands_append document⟩, ?_, hsolved,
    hnot⟩
  intro text' document' hread' hdemands
  -- The test has the file as it is, and two expectations more.
  let test : TestFile := { solved := some true, interrupted := some false, file }
  have htest : TestFile.ofText? text' = some test := by
    rw [TestFile.ofText?, hread']
    exact TestFile.ofTable?_of_demands hdemands hown (hstrict.trans hfile)
  have hrun : test.run clock' = outcome := hsame
  refine ⟨⟨test, htest, rfl, rfl, rfl, hrun⟩, fun testPath name => ?_⟩
  have hpasses : test.mismatch? clock' = none ↔
      outcome.interrupted = none ∧ problem.isSolved outcome.value = true := by
    rw [← hrun]
    exact TestFile.mismatch?_eq_none_iff rfl rfl rfl rfl rfl hproblem
  rw [hexit, ← hpasses, TestResult.of]
  simp only [htest, Option.map_eq_none_iff]

end RunOptions

end CommandLine

/-- A program that counts up to the target of its problem. -/
def countingText : String :=
  "[problem]\ninitial_value = 1\ntarget_value = 4.5\n\n" ++
  "[limits]\niteration_cap = 9\n\n" ++
  "[[slots]]\nkind = \"while\"\ncondition = \"x < 4\"\n\n" ++
  "[[slots.body]]\nkind = \"statement\"\ntext = \"x += 1.75\"\n"

/-- What is seen of the files around if this file is the only one. -/
def countingView : FileView := fun _ => .ok (.file (.ok countingText))

/-- The run of this file exits with success and its test passes. -/
theorem countingText_exitCode :
    ((CommandLine.RunOptions.reply { file := "counting.toml" } countingView .still).exitCode = 0 ↔
      (TestResult.of .still "tests/counting.test.toml" "counting.test.toml"
        (.ok (Toml.prepend TestFile.solvedInTime countingText))).failure = none) ∧
    (CommandLine.RunOptions.reply { file := "counting.toml" } countingView .still).exitCode = 0 ∧
    CommandLine.Print.message "solved" ∈
      (CommandLine.RunOptions.reply { file := "counting.toml" } countingView .still).prints := by
  have hfacts : (Toml.read countingText).any (fun document =>
      TestFile.ownNames.all (fun name => (document.lookup name).isNone) &&
      ["problem", "limits"].all (fun name => (document.lookup name).all Toml.Value.isTable) &&
      (ProgramFile.ofTable? .ignore document).any fun file =>
        file.limits.timeLimit.isNone && file.problem.any fun problem =>
          let outcome := file.run file.limits .still problem.initialValue
          problem.targetValue.isSome && outcome.interrupted.isNone &&
            problem.isSolved outcome.value) = true := by
    decide +kernel
  simp only [Option.any_eq_true, Bool.and_eq_true, List.all_eq_true, Option.isNone_iff_eq_none,
    Option.isSome_iff_exists] at hfacts
  obtain ⟨document, hread, ⟨hown, htables⟩, file, hfile, htime, problem, hproblem,
    ⟨⟨target, htarget⟩, hnone⟩, hsolved⟩ := hfacts
  have hstrict : ProgramFile.ofTable? .refuse document = ProgramFile.ofTable? .ignore document := by
    refine TestFile.ofTable?_refuse_eq_ignore fun name hname items hlist => ?_
    have htable := htables name hname
    rw [hlist] at htable
    cases htable
  have hlimit : ∀ limit, file.limits.timeLimit = some limit → limit = 0 ∨
      ∀ c ∈ [Clock.still, Clock.still],
        (file.run file.limits c (file.initialValue none)).interrupted = none := by
    rw [htime]
    rintro limit ⟨⟩
  have hinitial : file.initialValue none = problem.initialValue := by
    rw [ProgramFile.initialValue, hproblem]
    rfl
  obtain ⟨⟨document', hread', hdemands⟩, htest, hverdict, -⟩ :=
    CommandLine.RunOptions.exitCode_eq_zero_iff_test_passes "counting.toml" false countingView
      .still .still countingText document file problem target rfl hread hfile hstrict hproblem htarget hown
      ⟨rfl, rfl⟩ hlimit
  rw [← hinitial] at hnone hsolved
  exact ⟨(htest _ document' hread' hdemands).2 _ _, by decide +kernel,
    hverdict.mpr ⟨hnone, hsolved⟩⟩

end BlockLang
