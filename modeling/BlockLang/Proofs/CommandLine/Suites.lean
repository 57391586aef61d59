import BlockLang.Proofs.CommandLine.Expectations
import Mathlib.Data.List.Perm.Basic
import Mathlib.Data.List.Sort
import Mathlib.Data.String.Basic

/-!
# Selected tests

Which tests are found in a folder, and which of them a list of requests selects. Main statements:
`FoundTest.mem_ofTree_iff` for what is found, and `TestSuite.select_ofTests` for what is selected,
each test as often as it was found and in order, however often the requests take it in.
-/

namespace BlockLang

/-! ## Tests in a folder -/

namespace FileTree

/-- From the entries of a folder, a way through folders leads to one with these entries. -/
def Reaches : List (String × FileTree) → List String → List (String × FileTree) → Prop
  | entries, [], inner => inner = entries
  | entries, name :: way, inner => ∃ next, (name, folder next) ∈ entries ∧ Reaches next way inner

/-- No folder has two entries with the same name. -/
def NamesDistinct (entries : List (String × FileTree)) : Prop :=
  ∀ way inner, Reaches entries way inner → (inner.map Prod.fst).Nodup

variable {entries inner : List (String × FileTree)} {name : String}

/-- If names are distinct, they are so in every folder inside. -/
lemma NamesDistinct.of_mem (h : NamesDistinct entries) (hmem : (name, folder inner) ∈ entries) :
    NamesDistinct inner :=
  fun way last hlast => h (name :: way) last ⟨inner, hmem, hlast⟩

lemma NamesDistinct.of_cons {entry : String × FileTree} (h : NamesDistinct (entry :: entries)) :
    NamesDistinct entries := by
  intro way inner hinner
  cases way with
  | nil =>
    obtain rfl : inner = entries := hinner
    exact (List.nodup_cons.mp (h [] _ rfl)).2
  | cons folder way =>
    obtain ⟨next, hmem, hnext⟩ := hinner
    exact h (folder :: way) inner ⟨next, List.mem_cons_of_mem _ hmem, hnext⟩

end FileTree

namespace FoundTest

open FileTree

variable {test : FoundTest} {folders : List String} {entries : List (String × FileTree)}

/-- The name is that of a test file. -/
def IsTestName (name : String) : Prop :=
  ∃ stem, name = stem ++ testSuffix

/-- A file has the name of a test if it has the ending with something in front or nothing. -/
lemma isSome_testStem?_iff {name : String} : (testStem? name).isSome = true ↔ IsTestName name := by
  have hsuffix : testSuffix.toList.isSuffixOf name.toList = true ↔ IsTestName name := by
    rw [List.isSuffixOf_iff_suffix]
    constructor
    · rintro ⟨stem, hstem⟩
      refine ⟨.ofList stem, ?_⟩
      rw [← String.toList_inj, String.toList_append, String.toList_ofList, hstem]
    · rintro ⟨stem, rfl⟩
      exact ⟨stem.toList, (String.toList_append ..).symm⟩
  rw [testStem?, ← hsuffix]
  split
  next h => exact iff_of_true rfl h
  next h => exact iff_of_false Bool.false_ne_true h

/-- The test is below a folder with these entries, which is itself reached through the given
folders. -/
def IsAt (test : FoundTest) (folders : List String) (entries : List (String × FileTree)) : Prop :=
  IsTestName test.name ∧ ∃ way inner, test.folders = folders ++ way ∧
    Reaches entries way inner ∧ (test.name, FileTree.file test.content) ∈ inner

/-- A test is in a folder itself, or below one of its folders. -/
lemma isAt_iff :
    test.IsAt folders entries ↔
      (IsTestName test.name ∧ test.folders = folders ∧
        (test.name, FileTree.file test.content) ∈ entries) ∨
      ∃ name inner, (name, folder inner) ∈ entries ∧ test.IsAt (folders ++ [name]) inner := by
  constructor
  · rintro ⟨hname, way, last, hfolders, hreach, hmem⟩
    cases way with
    | nil =>
      obtain rfl : last = entries := hreach
      exact .inl ⟨hname, hfolders.trans (List.append_nil _), hmem⟩
    | cons name way =>
      obtain ⟨inner, hinner, hreach⟩ := hreach
      refine .inr ⟨name, inner, hinner, hname, way, last, ?_, hreach, hmem⟩
      rw [hfolders, List.append_assoc, List.singleton_append]
  · rintro (⟨hname, rfl, hmem⟩ | ⟨name, inner, hinner, hname, way, last, hfolders, hreach, hmem⟩)
    · exact ⟨hname, [], entries, (List.append_nil _).symm, rfl, hmem⟩
    · refine ⟨hname, name :: way, last, ?_, ⟨inner, hinner, hreach⟩, hmem⟩
      rw [hfolders, List.append_assoc, List.singleton_append]

lemma isAt_nil : ¬ test.IsAt folders [] := by
  rw [isAt_iff]
  simp

/-- A file in front is a test if it has the name of one. -/
lemma isAt_cons_file {name : String} {content : Except FileFault String} :
    test.IsAt folders ((name, .file content) :: entries) ↔
      (IsTestName name ∧ test = ⟨folders, name, content⟩) ∨
        test.IsAt folders entries := by
  rw [isAt_iff, @isAt_iff test folders entries]
  obtain ⟨folders', name', content'⟩ := test
  simp only [List.mem_cons, Prod.mk.injEq, FileTree.file.injEq, reduceCtorEq, and_false, false_or,
    FoundTest.mk.injEq]
  constructor
  · rintro (⟨hname, rfl, ⟨rfl, rfl⟩ | hmem⟩ | hbelow)
    · exact .inl ⟨hname, rfl, rfl, rfl⟩
    · exact .inr (.inl ⟨hname, rfl, hmem⟩)
    · exact .inr (.inr hbelow)
  · rintro (⟨hname, rfl, rfl, rfl⟩ | ⟨hname, rfl, hmem⟩ | hbelow)
    · exact .inl ⟨hname, rfl, .inl ⟨rfl, rfl⟩⟩
    · exact .inl ⟨hname, rfl, .inr hmem⟩
    · exact .inr hbelow

/-- A folder in front has the tests inside it. -/
lemma isAt_cons_folder {name : String} {inner : List (String × FileTree)} :
    test.IsAt folders ((name, .folder inner) :: entries) ↔
      test.IsAt (folders ++ [name]) inner ∨ test.IsAt folders entries := by
  rw [isAt_iff, @isAt_iff test folders entries]
  simp only [List.mem_cons, Prod.mk.injEq, FileTree.folder.injEq, reduceCtorEq, and_false, false_or]
  constructor
  · rintro (hfile | ⟨name', inner', ⟨rfl, rfl⟩ | hmem, hbelow⟩)
    · exact .inr (.inl hfile)
    · exact .inl hbelow
    · exact .inr (.inr ⟨name', inner', hmem, hbelow⟩)
  · rintro (hbelow | hfile | ⟨name', inner', hmem, hbelow⟩)
    · exact .inr ⟨name, inner, .inl ⟨rfl, rfl⟩, hbelow⟩
    · exact .inl hfile
    · exact .inr ⟨name', inner', .inr hmem, hbelow⟩

mutual

lemma mem_ofEntry_append_iff (test : FoundTest) (folders : List String) (name : String)
    (entries : List (String × FileTree)) : ∀ tree,
    test ∈ ofEntry folders name tree ∨ test.IsAt folders entries ↔
      test.IsAt folders ((name, tree) :: entries)
  | .file content => by
    rw [isAt_cons_file, ofEntry, ← isSome_testStem?_iff]
    split <;> simp_all
  | .folder inner => by
    rw [isAt_cons_folder, ofEntry, mem_ofEntries_iff test (folders ++ [name]) inner]

/-- The tests that are found are those that are there. -/
lemma mem_ofEntries_iff (test : FoundTest) (folders : List String) :
    ∀ entries, test ∈ ofEntries folders entries ↔ test.IsAt folders entries
  | [] => by
    rw [ofEntries]
    exact iff_of_false List.not_mem_nil isAt_nil
  | (name, tree) :: entries => by
    rw [ofEntries, List.mem_append, mem_ofEntries_iff test folders entries,
      mem_ofEntry_append_iff test folders name entries tree]

end

/-- What is found in a folder are the files below it that have the name of a test. -/
lemma mem_ofTree_iff : test ∈ ofTree (folder entries) ↔ test.IsAt [] entries :=
  mem_ofEntries_iff test [] entries

/-! ### Each test is found once -/

/-- The path of a test goes on with the name of an entry. -/
lemma exists_path_eq (h : test.IsAt folders entries) :
    ∃ name rest, test.path = folders ++ name :: rest ∧ name ∈ entries.map Prod.fst := by
  rcases isAt_iff.mp h with ⟨-, rfl, hmem⟩ | ⟨name, inner, hmem, -, way, last, hfolders, -, -⟩
  · exact ⟨test.name, [], rfl, List.mem_map_of_mem hmem⟩
  · refine ⟨name, way ++ [test.name], ?_, List.mem_map_of_mem hmem⟩
    simp only [path, hfolders, List.append_assoc, List.cons_append, List.nil_append]

mutual

lemma nodup_path_ofEntry (folders : List String) (name : String) : ∀ tree,
    (∀ inner, tree = folder inner → NamesDistinct inner) →
      ((ofEntry folders name tree).map path).Nodup
  | .file content, _ => by
    rw [ofEntry]
    split
    · exact List.nodup_singleton _
    · exact List.nodup_nil
  | .folder inner, hdistinct => by
    rw [ofEntry]
    exact nodup_path_ofEntries (folders ++ [name]) inner (hdistinct inner rfl)

/-- If names are distinct, no two tests have the same path. -/
lemma nodup_path_ofEntries (folders : List String) : ∀ entries,
    NamesDistinct entries → ((ofEntries folders entries).map path).Nodup
  | [], _ => List.nodup_nil
  | (name, tree) :: entries, hdistinct => by
    have hfirst : ((ofEntry folders name tree).map path).Nodup := by
      refine nodup_path_ofEntry folders name tree ?_
      rintro inner rfl
      exact hdistinct.of_mem List.mem_cons_self
    have hrest := nodup_path_ofEntries folders entries hdistinct.of_cons
    have hnames : name ∉ entries.map Prod.fst := (List.nodup_cons.mp (hdistinct [] _ rfl)).1
    rw [ofEntries, List.map_append, List.nodup_append']
    refine ⟨hfirst, hrest, fun p hp hp' => ?_⟩
    obtain ⟨a, ha, rfl⟩ := List.mem_map.mp hp
    obtain ⟨b, hb, heq⟩ := List.mem_map.mp hp'
    have hat : a.IsAt folders [(name, tree)] :=
      (mem_ofEntry_append_iff a folders name [] tree).mp (.inl ha)
    obtain ⟨first, rest, hpath, hfirst⟩ := exists_path_eq hat
    obtain ⟨first', rest', hpath', hfirst'⟩ := exists_path_eq ((mem_ofEntries_iff b _ _).mp hb)
    rw [hpath, hpath', List.append_cancel_left_eq, List.cons.injEq] at heq
    obtain rfl : first = name := List.mem_singleton.mp hfirst
    exact hnames (heq.1 ▸ hfirst')

end

/-! ## The order of tests -/

/-- The categories are run in order, and the tests of a category in the order of their paths. -/
def InOrder (a b : FoundTest) : Prop :=
  a.category < b.category ∨ a.category = b.category ∧ a.path ≤ b.path

end FoundTest

/-- Sorted texts are in strict order once each of them is kept once. -/
lemma pairwise_lt_eraseDups :
    ∀ {texts : List String}, texts.Pairwise (· ≤ ·) → texts.eraseDups.Pairwise (· < ·)
  | [], _ => List.Pairwise.nil
  | a :: texts, h => by
    have hsorted := List.pairwise_cons.mp h
    have hshorter : (texts.filter fun b => !b == a).length < texts.length + 1 :=
      Nat.lt_succ_of_le (List.length_filter_le _ _)
    rw [List.eraseDups_cons, List.pairwise_cons]
    refine ⟨fun b hb => ?_, pairwise_lt_eraseDups (hsorted.2.filter _)⟩
    rw [List.mem_eraseDups, List.mem_filter, Bool.not_eq_true', beq_eq_false_iff_ne] at hb
    exact lt_of_le_of_ne (hsorted.1 b hb.1) hb.2.symm
termination_by texts => texts.length

/-- The parts of a list with each of some keys make up the part with any of these keys. -/
lemma flatMap_filter_perm {α κ : Type} [DecidableEq κ] (key : α → κ) (l : List α) {keys : List κ}
    (hkeys : keys.Nodup) :
    (keys.flatMap fun k => l.filter (key · = k)).Perm (l.filter (key · ∈ keys)) := by
  induction keys with
  | nil => simp
  | cons k keys ih =>
    obtain ⟨hk, hkeys⟩ := List.nodup_cons.mp hkeys
    have hfirst : (l.filter (key · ∈ k :: keys)).filter (key · = k) = l.filter (key · = k) := by
      rw [List.filter_filter]
      refine List.filter_congr fun a _ => ?_
      by_cases ha : key a = k <;> simp [ha]
    have hrest : (l.filter (key · ∈ k :: keys)).filter (fun a => !decide (key a = k)) =
        l.filter (key · ∈ keys) := by
      rw [List.filter_filter]
      refine List.filter_congr fun a _ => ?_
      by_cases ha : key a = k <;> simp [ha, hk]
    rw [List.flatMap_cons]
    refine ((ih hkeys).append_left _).trans ?_
    rw [← hfirst, ← hrest]
    exact List.filter_append_perm _ _

/-! ## Requests -/

namespace TestSuite

/-- The category has this name, or is below the one that has. -/
def IsWithin (name category : String) : Prop :=
  category = name ∨ ∃ rest, category = name ++ "/" ++ rest

/-- There are no requests, or one of them names the category or one above it. Slashes at either end
of a request do not matter. -/
def Requested (requests : List String) (category : String) : Prop :=
  requests = [] ∨ ∃ request ∈ requests, ∃ name,
    Text.IsTrimmed (· == '/') request name ∧ IsWithin name category

variable {name category : String} {requests : List String}

/-- A request takes in a category that it names, and those below. -/
lemma covers_iff : covers name category = true ↔ IsWithin name category := by
  rw [covers, Bool.or_eq_true, decide_eq_true_iff, List.isPrefixOf_iff_prefix]
  refine or_congr_right ⟨?_, ?_⟩
  · rintro ⟨rest, hrest⟩
    refine ⟨.ofList rest, ?_⟩
    rw [← String.toList_inj, String.toList_append, String.toList_ofList, hrest]
  · rintro ⟨rest, rfl⟩
    exact ⟨rest.toList, (String.toList_append ..).symm⟩

/-- A category is requested if a request takes it in, or if there is no request. -/
lemma requested_iff :
    Requested requests category ↔
      requests.isEmpty = true ∨ requests.any (fun r => covers (requestName r) category) = true := by
  simp only [Requested, Text.isTrimmed_iff, exists_eq_left, List.isEmpty_iff, List.any_eq_true,
    covers_iff, requestName]

instance (requests : List String) (category : String) : Decidable (Requested requests category) :=
  decidable_of_iff' _ requested_iff

/-- The requested categories are kept. -/
lemma select_eq (suite : TestSuite) (requests : List String) :
    suite.select requests = suite.filter fun entry => decide (Requested requests entry.1) := by
  simp only [requested_iff, Bool.decide_or, Bool.decide_eq_true]
  rw [select]
  split
  next hnone => simp [hnone]
  next hsome => simp [hsome]

/-! ## The tests of a suite -/

variable {tests : List FoundTest}

/-- The categories of tests, in order. -/
def categories (tests : List FoundTest) : List String :=
  ((tests.map FoundTest.category).mergeSort fun a b => decide (a ≤ b)).eraseDups

/-- The tests of a category, in order. -/
def inCategory (tests : List FoundTest) (category : String) : List FoundTest :=
  (tests.filter (·.category = category)).mergeSort fun a b => !b.path.lex a.path

/-- Categories are in the order of their names, and each is there once. -/
lemma pairwise_categories (tests : List FoundTest) : (categories tests).Pairwise (· < ·) := by
  refine pairwise_lt_eraseDups ?_
  exact List.pairwise_mergeSort' (· ≤ ·) _

/-- A category is there if a test belongs to it. -/
lemma mem_categories_iff :
    category ∈ categories tests ↔ ∃ test ∈ tests, test.category = category := by
  rw [categories, List.mem_eraseDups, List.mem_mergeSort, List.mem_map]

/-- The tests of a category are those that belong to it. -/
lemma inCategory_perm (tests : List FoundTest) (category : String) :
    (inCategory tests category).Perm (tests.filter (·.category = category)) :=
  List.mergeSort_perm _ _

lemma mem_inCategory_iff {test : FoundTest} :
    test ∈ inCategory tests category ↔ test ∈ tests ∧ test.category = category := by
  rw [(inCategory_perm tests category).mem_iff, List.mem_filter, decide_eq_true_iff]

/-- The tests of a category are in the order of their paths. -/
lemma pairwise_inCategory (tests : List FoundTest) (category : String) :
    (inCategory tests category).Pairwise FoundTest.InOrder := by
  have hle (a b : FoundTest) : (!b.path.lex a.path) = true ↔ a.path ≤ b.path := by
    rw [Bool.not_eq_true', ← not_lt]
    exact List.lex_eq_false_iff_ge
  have hsorted : (inCategory tests category).Pairwise fun a b => (!b.path.lex a.path) = true := by
    refine List.pairwise_mergeSort (fun a b c hab hbc => ?_) (fun a b => ?_) _
    · rw [hle] at hab hbc ⊢
      exact le_trans hab hbc
    · rw [Bool.or_eq_true, hle, hle]
      exact le_total a.path b.path
  refine hsorted.imp_of_mem fun {a b} ha hb hab => .inr ⟨?_, (hle a b).mp hab⟩
  rw [(mem_inCategory_iff.mp ha).2, (mem_inCategory_iff.mp hb).2]

/-- What is selected are the requested categories with their tests. -/
lemma select_ofTests_eq (tests : List FoundTest) (requests : List String) :
    (ofTests tests).select requests =
      ((categories tests).filter fun category => decide (Requested requests category)).map
        fun category => (category, inCategory tests category) := by
  rw [select_eq, ofTests, List.filter_map]
  rfl

/-- The requests select the tests whose category they take in, each one as often as it was found,
and in order. -/
theorem select_ofTests (tests : List FoundTest) (requests : List String) :
    let selected := ((ofTests tests).select requests).flatMap Prod.snd
    selected.Perm (tests.filter fun test => decide (Requested requests test.category)) ∧
      selected.Pairwise FoundTest.InOrder := by
  intro selected
  set keys := (categories tests).filter fun category => decide (Requested requests category)
  have hkeys : keys.Pairwise (· < ·) := (pairwise_categories tests).filter _
  have hselected : selected = keys.flatMap (inCategory tests) := by
    show ((ofTests tests).select requests).flatMap Prod.snd = _
    rw [select_ofTests_eq, List.flatMap_map]
  have hfilter : tests.filter (fun test => decide (test.category ∈ keys)) =
      tests.filter fun test => decide (Requested requests test.category) := by
    refine List.filter_congr fun test htest => ?_
    rw [decide_eq_decide, List.mem_filter, decide_eq_true_iff]
    exact and_iff_right (mem_categories_iff.mpr ⟨test, htest, rfl⟩)
  rw [hselected]
  constructor
  · rw [← hfilter]
    refine List.Perm.trans ?_ (flatMap_filter_perm FoundTest.category tests hkeys.nodup)
    exact List.Perm.flatMap_left keys fun category _ => inCategory_perm tests category
  · rw [List.pairwise_flatMap]
    refine ⟨fun category _ => pairwise_inCategory tests category, hkeys.imp ?_⟩
    intro category category' hlt a ha b hb
    left
    rwa [(mem_inCategory_iff.mp ha).2, (mem_inCategory_iff.mp hb).2]

/-- Without tests there are no categories. -/
lemma select_ofTests_eq_nil_iff (tests : List FoundTest) (requests : List String) :
    (ofTests tests).select requests = [] ↔
      ((ofTests tests).select requests).flatMap Prod.snd = [] := by
  rw [select_ofTests_eq, List.flatMap_eq_nil_iff, List.map_eq_nil_iff]
  constructor
  · intro hnone
    rw [hnone]
    exact List.forall_mem_nil _
  · intro hempty
    refine List.eq_nil_iff_forall_not_mem.mpr fun category hcategory => ?_
    obtain ⟨test, htest, heq⟩ := mem_categories_iff.mp (List.mem_of_mem_filter hcategory)
    have hnone : inCategory tests category = [] := hempty _ (List.mem_map_of_mem hcategory)
    have hmem : test ∈ inCategory tests category := mem_inCategory_iff.mpr ⟨htest, heq⟩
    rw [hnone] at hmem
    exact List.not_mem_nil hmem

end TestSuite

end BlockLang
