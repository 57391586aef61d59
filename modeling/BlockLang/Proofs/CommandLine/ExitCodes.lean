import BlockLang.CommandLine.Reply
import BlockLang.Proofs.CommandLine.Suites
import Mathlib.Data.List.Flatten
import Mathlib.Data.Prod.Lex

/-!
# Exit codes of test runs

What it means that the tests below a folder are run with success. Main statement: the tests that are
run are those that the requests select, each of them once and in order, and the exit code is zero if
and only if there is one and all of them pass.
-/

namespace BlockLang

namespace FoundTest

instance (test : FoundTest) (clock : Clock) : Decidable (test.Passes clock) :=
  decidable_of_iff _ (failure_eq_none_iff "")

/-- A result is a failure unless the test passes. -/
lemma isSome_failure (test : FoundTest) (clock : Clock) (root : String) :
    (test.result clock root).failure.isSome = decide (¬ test.Passes clock) := by
  rw [Bool.eq_iff_iff, decide_eq_true_iff, Option.isSome_iff_ne_none, ne_eq, failure_eq_none_iff]

end FoundTest

namespace CommandLine.TestOptions

variable {o : TestOptions} {view : FileView} {clock : Clock} {entries : List (String × FileTree)}

/-! ## What is printed -/

/-- There is a line for each result, in order. -/
lemma map_resultLine_sublist (color headings : Bool) (results : List (String × List TestResult)) :
    ((results.flatMap Prod.snd).map (resultLine color)).Sublist
      (reportLines color headings results) := by
  rw [List.map_flatMap, reportLines]
  refine List.Sublist.trans ?_ (List.sublist_append_left _ _)
  refine List.Sublist.trans ?_ (List.sublist_append_left _ _)
  exact List.Sublist.flatMap_right results fun _ _ => List.sublist_append_right _ _

/-- The last line tells how many results there are, and how many of them are failures. -/
lemma getLast?_reportLines (color headings : Bool) (results : List (String × List TestResult)) :
    (reportLines color headings results).getLast? =
      some (summaryLine color (results.flatMap Prod.snd).length
        ((results.flatMap Prod.snd).countP fun result => result.failure.isSome)) := by
  rw [reportLines, List.getLast?_append, List.countP_eq_length_filter]
  rfl

/-! ## Replies -/

/-- What is seen of the entries of the folder at the path. -/
def seen (o : TestOptions) (entries : List (String × FileTree)) : List (String × FileTree) :=
  FileTree.entriesSeenFrom o.path entries

/-- The tests that were found in the folder and that the requests select, as they are run. -/
def selected (o : TestOptions) (view : FileView) : List FoundTest :=
  ((o.suite view).select o.categories).flatMap Prod.snd

lemma isFile_of_folder (hview : view o.path = .ok (.folder entries)) : o.isFile view = false := by
  rw [isFile, hview]
  rfl

/-- The suite of a folder has the tests that are found in it. -/
lemma suite_of_folder (hview : view o.path = .ok (.folder entries)) :
    o.suite view = .ofTests (FoundTest.ofTree (.folder (o.seen entries))) := by
  rw [suite, hview]
  rfl

lemma results_of_folder (clock : Clock) (hview : view o.path = .ok (.folder entries)) :
    o.results view clock = ((o.suite view).select o.categories).run clock o.path := by
  rw [results, hview]

/-- There is a result for each selected test, in order. -/
lemma flatMap_results (hview : view o.path = .ok (.folder entries)) :
    (o.results view clock).flatMap Prod.snd =
      (o.selected view).map fun test => test.result clock o.path := by
  rw [results_of_folder clock hview, TestSuite.run, selected, List.flatMap_map, List.map_flatMap]
  rfl

/-- No category is without tests. -/
lemma results_eq_nil_iff (hview : view o.path = .ok (.folder entries)) :
    o.results view clock = [] ↔ o.selected view = [] := by
  rw [results_of_folder clock hview, TestSuite.run, List.map_eq_nil_iff, selected,
    suite_of_folder hview]
  exact TestSuite.select_ofTests_eq_nil_iff _ _

/-- A run without results fails. -/
lemma exitCode_of_selected_eq_nil (color : Bool) (clock : Clock)
    (hview : view o.path = .ok (.folder entries)) (hnone : o.selected view = []) :
    (o.runReply color view clock).exitCode = 1 := by
  have hresults : o.results view clock = [] := (results_eq_nil_iff hview).mpr hnone
  simp only [runReply, hresults, List.isEmpty_nil, if_true]
  split <;> rfl

/-- The reply to a run that has results. -/
lemma runReply_of_selected_ne_nil (color : Bool) (clock : Clock)
    (hview : view o.path = .ok (.folder entries)) (hsome : o.selected view ≠ []) :
    o.runReply color view clock =
      ⟨(o.warnings (o.suite view) ++ reportLines color true (o.results view clock)).map .message,
        if (o.selected view).any fun test => ¬ test.Passes clock then 1 else 0⟩ := by
  have hresults : o.results view clock ≠ [] := fun h => hsome ((results_eq_nil_iff hview).mp h)
  have hsuite : o.suite view ≠ [] := by
    intro hempty
    apply hresults
    rw [results_of_folder clock hview, hempty, TestSuite.select_eq]
    rfl
  have hfails : ((o.results view clock).flatMap Prod.snd).any (fun result =>
      result.failure.isSome) = (o.selected view).any fun test => ¬ test.Passes clock := by
    rw [flatMap_results hview, List.any_map]
    exact congrArg _ (funext fun test => test.isSome_failure clock o.path)
  rw [← hfails]
  simp only [runReply, isFile_of_folder hview, List.isEmpty_eq_false_iff.mpr hsuite,
    List.isEmpty_eq_false_iff.mpr hresults, Bool.not_false, Bool.and_false, Bool.false_eq_true,
    if_false, List.any_flatMap]

/-- The lines about the tests that are run are printed as these follow on each other. -/
lemma map_resultLine_sublist_prints (color : Bool) (clock : Clock)
    (hview : view o.path = .ok (.folder entries)) :
    ((o.selected view).map fun test =>
      Print.message (resultLine color (test.result clock o.path))).Sublist
        (o.runReply color view clock).prints := by
  by_cases hnone : o.selected view = []
  · rw [hnone]
    exact List.nil_sublist _
  · have hlines := map_resultLine_sublist color true (o.results view clock)
    rw [flatMap_results hview, List.map_map] at hlines
    have hprints := (hlines.trans (List.sublist_append_right (o.warnings (o.suite view)) _)).map
      Print.message
    rw [List.map_map] at hprints
    rwa [runReply_of_selected_ne_nil color clock hview hnone]

/-- The last line is about all tests that are run. -/
lemma getLast?_prints (color : Bool) (clock : Clock) (hview : view o.path = .ok (.folder entries))
    (hsome : o.selected view ≠ []) :
    (o.runReply color view clock).prints.getLast? =
      some (.message (summaryLine color (o.selected view).length
        ((o.selected view).countP fun test => ¬ test.Passes clock))) := by
  have hfails : ((o.selected view).map fun test => test.result clock o.path).countP
      (fun result => result.failure.isSome) =
        (o.selected view).countP fun test => ¬ test.Passes clock := by
    rw [List.countP_map]
    exact congrFun (congrArg _ (funext fun test => test.isSome_failure clock o.path)) _
  rw [runReply_of_selected_ne_nil color clock hview hsome, List.getLast?_map, List.getLast?_append,
    getLast?_reportLines, flatMap_results hview, List.length_map, hfails]
  rfl

/-- The results of tests are told under the paths of these, seen from where they are looked for. -/
lemma map_path_result (tests : List FoundTest) (clock : Clock) (base : String) :
    (tests.map fun test => test.result clock base).map TestResult.path =
      (tests.map FoundTest.path).map (List.foldl FileTree.join base) := by
  rw [List.map_map, List.map_map]
  exact List.map_congr_left fun test _ => TestResult.path_of ..

/-- There is one code for success and one for failure. -/
lemma exitCode_eq_zero_or_one (color : Bool) (clock : Clock)
    (hview : view o.path = .ok (.folder entries)) :
    (o.runReply color view clock).exitCode = 0 ∨ (o.runReply color view clock).exitCode = 1 := by
  by_cases hnone : o.selected view = []
  · exact .inr (exitCode_of_selected_eq_nil color clock hview hnone)
  · rw [runReply_of_selected_ne_nil color clock hview hnone]
    cases (o.selected view).any fun test => ¬ test.Passes clock
    · exact .inl rfl
    · exact .inr rfl

/-- A run succeeds if it has results and none of them is a failure. -/
lemma exitCode_eq_zero_iff (color : Bool) (clock : Clock)
    (hview : view o.path = .ok (.folder entries)) :
    (o.runReply color view clock).exitCode = 0 ↔
      o.selected view ≠ [] ∧ ∀ test ∈ o.selected view, test.Passes clock := by
  by_cases hnone : o.selected view = []
  · rw [exitCode_of_selected_eq_nil color clock hview hnone]
    exact iff_of_false (by decide) fun h => h.1 hnone
  · rw [runReply_of_selected_ne_nil color clock hview hnone, and_iff_right hnone]
    have hpass : ((o.selected view).any fun test => ¬ test.Passes clock) = false ↔
        ∀ test ∈ o.selected view, test.Passes clock := by simp
    rw [← hpass]
    cases (o.selected view).any fun test => ¬ test.Passes clock <;> simp

/-- The tests below a folder are run: all of them, or those that the requests select, each as often
as it was found, in the order of their categories and their paths. What is found are the files that
have the name of a test, and none twice if names are distinct. A line for each test is printed in
this order, which tells whether the test passes, and a last one that counts the tests that pass, or
those that fail. The exit code is zero if and only if there is a test to run and all tests that are
run pass, and one otherwise. -/
theorem runReply_folder (o : TestOptions) (color : Bool) (view : FileView) (clock : Clock)
    (entries : List (String × FileTree)) (hview : view o.path = .ok (.folder entries)) :
    let found := FoundTest.ofTree (.folder (o.seen entries))
    let reply := o.runReply color view clock
    (∀ test, test ∈ found ↔ test.IsAt [] (o.seen entries)) ∧
    ∃ selected : List FoundTest,
      selected.Perm (found.filter fun test => TestSuite.Requested o.categories test.category) ∧
      selected.Pairwise FoundTest.InOrder ∧
      (FileTree.NamesDistinct (o.seen entries) → (selected.map FoundTest.path).Nodup) ∧
      (o.results view clock).flatMap Prod.snd =
        selected.map (fun test => test.result clock o.path) ∧
      (∀ test ∈ selected, (test.result clock o.path).failure = none ↔ test.Passes clock) ∧
      let passed := selected.countP fun test => test.Passes clock
      let failed := selected.countP fun test => ¬ test.Passes clock
      passed + failed = selected.length ∧
      (selected.map fun test => Print.message (resultLine color (test.result clock o.path))).Sublist
        reply.prints ∧
      (selected ≠ [] →
        reply.prints.getLast? = some (.message (summaryLine color (passed + failed) failed))) ∧
      (reply.exitCode = 0 ∨ reply.exitCode = 1) ∧
      (reply.exitCode = 0 ↔ selected ≠ [] ∧ ∀ test ∈ selected, test.Passes clock) := by
  intro found reply
  obtain ⟨hperm, hinOrder⟩ := TestSuite.select_ofTests found o.categories
  rw [← suite_of_folder hview] at hperm hinOrder
  refine ⟨fun test => FoundTest.mem_ofTree_iff, o.selected view, hperm, hinOrder, ?_,
    flatMap_results hview, fun test _ => test.failure_eq_none_iff o.path, ?_⟩
  · intro hdistinct
    have hfound : (found.map FoundTest.path).Nodup := FoundTest.nodup_path_ofEntries [] _ hdistinct
    refine (hperm.map FoundTest.path).nodup_iff.mpr (hfound.sublist ?_)
    exact List.filter_sublist.map _
  · intro passed failed
    have htotal : passed + failed = (o.selected view).length := by
      have hlength := List.length_eq_countP_add_countP (fun test => decide (test.Passes clock))
        (l := o.selected view)
      simpa only [decide_eq_true_eq] using hlength.symm
    refine ⟨htotal, map_resultLine_sublist_prints color clock hview, fun hsome => ?_,
      exitCode_eq_zero_or_one color clock hview, exitCode_eq_zero_iff color clock hview⟩
    rw [htotal]
    exact getLast?_prints color clock hview hsome

/-- A test that is to end on no number. -/
def undefinedText : String :=
  "expect_value = nan\n[[slots]]\nkind = \"statement\"\ntext = \"x /= x\"\n"

/-- A test that prints its program variable and is to end on 3, though it begins with 2. -/
def unmetText : String :=
  "initial = 2\nexpect_output = \" 2\"\nexpect_value = 3\n[[slots]]\nkind = \"print\"\n"

/-- A folder with tests in three categories. The ones that are not about loops do not pass: one asks
for a solution without a problem, one ends on another number, and one cannot be read. -/
def testFolder : List (String × FileTree) :=
  [("first.test.toml", .file (.ok "expect_solved = true\n")),
    ("loops", .folder
      [("nested", .folder [("a.test.toml", .file (.ok undefinedText))]),
        ("notes.txt", .file (.ok "")), ("b.test.toml", .file (.ok "expect_diagnostics = []\n"))]),
    ("loopside", .folder
      [("c.test.toml", .file (.error .notText)), ("d.test.toml", .file (.ok unmetText))])]

/-- Of these tests, the ones that are requested more than once are run once and pass. If all are
run, three of them fail. -/
theorem runReply_testFolder :
    let o : TestOptions := { path := "tests", categories := ["loops/nested", "/loops/", "loops"] }
    let all : TestOptions := { path := "tests" }
    let view : FileView := fun _ => .ok (.folder testFolder)
    ((o.results view .still).flatMap Prod.snd).map TestResult.path =
      ["tests/loops/b.test.toml", "tests/loops/nested/a.test.toml"] ∧
    (o.runReply false view .still).prints.getLast? = some (.message "ok: 2 of 2 passed") ∧
    (o.runReply false view .still).exitCode = 0 ∧
    ¬ FoundTest.Passes ⟨["loopside"], "d.test.toml", .ok unmetText⟩ .still ∧
    (all.runReply false view .still).prints.getLast? =
      some (.message "FAILED: 3 of 5 failed") ∧
    (all.runReply false view .still).exitCode = 1 := by
  intro o all view
  obtain ⟨-, selected, hperm, hinOrder, -, hresults, -, htotal, -, hlast, -, hexit⟩ :=
    runReply_folder o false view .still testFolder rfl
  obtain ⟨-, selected', hperm', -, -, -, -, htotal', -, hlast', hcode', hexit'⟩ :=
    runReply_folder all false view .still testFolder rfl
  let place (test : FoundTest) : Lex (String × List String) := toLex (test.category, test.path)
  have hfound : ((FoundTest.ofTree (.folder (o.seen testFolder))).filter fun test =>
      TestSuite.Requested o.categories test.category).map place =
        [toLex ("loops/nested", ["loops", "nested", "a.test.toml"]),
          toLex ("loops", ["loops", "b.test.toml"])] := by
    decide +kernel
  -- Both lists of places are in order, so the selected tests are these two in this order.
  have hplaces : selected.map place = [toLex ("loops", ["loops", "b.test.toml"]),
      toLex ("loops/nested", ["loops", "nested", "a.test.toml"])] := by
    have hsorted : (selected.map place).Pairwise (· ≤ ·) :=
      List.pairwise_map.mpr (hinOrder.imp Prod.Lex.toLex_le_toLex.mpr)
    have hswap := (hperm.map place).trans (hfound ▸ List.Perm.swap ..)
    exact hswap.eq_of_pairwise (fun _ _ _ _ => le_antisymm) hsorted (by decide +kernel)
  have hlength : selected.length = 2 := by
    rw [← List.length_map (f := place), hplaces]
    rfl
  have hfailed : selected.countP (fun test => ¬ test.Passes .still) = 0 :=
    (hperm.countP_eq _).trans (by decide +kernel)
  have hpasses : ∀ test ∈ selected, test.Passes .still := by
    simpa [List.countP_eq_zero] using hfailed
  have hsome : selected ≠ [] := List.ne_nil_of_length_pos (hlength ▸ Nat.zero_lt_two)
  have hlength' : selected'.length = 5 := hperm'.length_eq.trans (by decide +kernel)
  have hfailed' : selected'.countP (fun test => ¬ test.Passes .still) = 3 :=
    (hperm'.countP_eq _).trans (by decide +kernel)
  have hsome' : selected' ≠ [] := List.ne_nil_of_length_pos (hlength' ▸ Nat.succ_pos 4)
  have hnot : (all.runReply false view .still).exitCode ≠ 0 := by
    intro hzero
    have hnone : selected'.countP (fun test => ¬ test.Passes .still) = 0 :=
      List.countP_eq_zero.mpr fun test htest => by simpa using (hexit'.mp hzero).2 test htest
    rw [hnone] at hfailed'
    cases hfailed'
  refine ⟨?_, ?_, hexit.mpr ⟨hsome, hpasses⟩, by decide +kernel, ?_, hcode'.resolve_left hnot⟩
  · have hpaths : selected.map FoundTest.path =
        [["loops", "b.test.toml"], ["loops", "nested", "a.test.toml"]] := by
      have hsecond := congrArg (List.map fun p => (ofLex p).2) hplaces
      rwa [List.map_map] at hsecond
    rw [hresults, map_path_result, hpaths]
    decide +kernel
  · have hline : summaryLine false 2 0 = "ok: 2 of 2 passed" := by decide +kernel
    rw [hlast hsome, htotal, hlength, hfailed, hline]
  · have hline : summaryLine false 5 3 = "FAILED: 3 of 5 failed" := by decide +kernel
    rw [hlast' hsome', htotal', hlength', hfailed', hline]

end CommandLine.TestOptions

end BlockLang
