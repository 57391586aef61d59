import BlockLang.TestFile
import Mathlib.Data.List.Forall2
import Mathlib.Tactic.Lemma

/-!
# What the keys of a file say

A file of a program or a test is a document, and what it says stands at the keys of the document.
Main statement: a document is read as a test file if and only if at each key of a test file it has
a value of the kind that belongs there, or nothing if nothing has to be there, and then the test
file is what these values say.
-/

namespace BlockLang

namespace Toml

/-! ## Keys of a table -/

section

variable {α β : Type} {table : Table} {key : String} {means : Value → α → Prop}
  {read : Value → Option α}

/-- What a table says at a key, where values mean something. It says nothing if it has no value
there. -/
def Table.Says (table : Table) (key : String) (means : Value → α → Prop) : Option α → Prop
  | none => table.lookup key = none
  | some a => ∃ value, table.lookup key = some value ∧ means value a

/-- What a table says at a key, or the default if it says nothing there. -/
def Table.SaysOr (table : Table) (key : String) (default : α) (means : Value → α → Prop) (a : α) :
    Prop :=
  ∃ said, table.Says key means said ∧ a = said.getD default

namespace Fields

/-- A field that can be missing is read as what the table says, if values are read as what they
mean. -/
lemma optional_eq_some_iff (hread : ∀ value a, read value = some a ↔ means value a)
    {said : Option α} : optional table key read = some said ↔ table.Says key means said := by
  rw [optional]
  cases hvalue : table.lookup key with
  | none => cases said <;> simp [Table.Says, hvalue]
  | some value => cases said <;> simp [Table.Says, hvalue, hread]

/-- A field with a default is read as what the table says, or as the default. -/
lemma withDefault_eq_some_iff (hread : ∀ value a, read value = some a ↔ means value a)
    {default a : α} :
    withDefault table key read default = some a ↔ table.SaysOr key default means a := by
  rw [withDefault, Option.map_eq_some_iff]
  exact exists_congr fun said => and_congr (optional_eq_some_iff hread) eq_comm

/-- A field that has to be there is read as what the table says, and the table has to say
something. -/
lemma required_eq_some_iff (hread : ∀ value a, read value = some a ↔ means value a) {a : α} :
    required table key read = some a ↔ table.Says key means (some a) := by
  rw [required, Option.bind_eq_some_iff]
  exact exists_congr fun value => and_congr_right fun _ => hread value a

/-- A field of which a function is applied to what is read. -/
lemma exists_optional_iff {f : α → β} {means : Value → β → Prop}
    (hread : ∀ value b, (read value).map f = some b ↔ means value b) {said : Option β} :
    (∃ found, optional table key read = some found ∧ found.map f = said) ↔
      table.Says key means said := by
  rw [← optional_eq_some_iff hread, optional, optional]
  cases table.lookup key with
  | none => simp
  | some value => cases h : read value <;> simp [h]

/-- So it is with a field that has a default. -/
lemma exists_withDefault_iff {f : α → β} {means : Value → β → Prop}
    (hread : ∀ value b, (read value).map f = some b ↔ means value b) {default : α} {b : β} :
    (∃ a, withDefault table key read default = some a ∧ f a = b) ↔
      table.SaysOr key (f default) means b := by
  simp only [Table.SaysOr, ← exists_optional_iff hread, withDefault, Option.map_eq_some_iff]
  constructor
  · rintro ⟨_, ⟨found, hfound, rfl⟩, rfl⟩
    exact ⟨_, ⟨found, hfound, rfl⟩, by cases found <;> rfl⟩
  · rintro ⟨_, ⟨found, hfound, rfl⟩, rfl⟩
    exact ⟨_, ⟨found, hfound, rfl⟩, by cases found <;> rfl⟩

end Fields

end

/-! ## Kinds of values -/

namespace Value

variable {bound : Nat}

/-- A value that is a number, written with a fraction or as a whole number. -/
inductive IsNumber : Value → Float → Prop
  | integer (n : Int) : IsNumber (.integer n) (.ofInt n)
  | float (a : Float) : IsNumber (.float a) a

/-- The fields of a value that is made of several parts. A table has them by name. A list has them
in the order of their names, and can end before the last one. A moment has none. -/
inductive HasFields (names : List String) : Value → Table → Prop
  | table (entries : Table) : HasFields names (.table entries) entries
  | list (items : List Value) (h : items.length ≤ names.length) :
      HasFields names (.array items) (names.zip items)
  | moment (text : String) : HasFields names (.moment text) []

lemma string?_eq_some_iff (value : Value) (text : String) :
    value.string? = some text ↔ value = .string text := by
  cases value <;> simp [string?]

lemma boolean?_eq_some_iff (value : Value) (b : Bool) :
    value.boolean? = some b ↔ value = .boolean b := by
  cases value <;> simp [boolean?]

lemma number?_eq_some_iff (value : Value) (a : Float) :
    value.number? = some a ↔ value.IsNumber a := by
  constructor
  · intro h
    cases value <;> cases h
    · exact .integer _
    · exact .float _
  · rintro ⟨n⟩ <;> rfl

lemma natural?_eq_some_iff (value : Value) (n : Nat) :
    value.natural? bound = some n ↔ value = .integer n ∧ n < bound := by
  cases value with
  | integer k =>
    simp only [natural?, Option.ite_none_right_eq_some, Option.some.injEq, integer.injEq]
    omega
  | _ => simp [natural?]

/-- Whole numbers below the bound that are as good as the values of a type. -/
lemma map_natural?_eq_some_iff {α : Type} {ofNat : Nat → α} {toNat : α → Nat}
    (hof : ∀ n < bound, toNat (ofNat n) = n) (hto : ∀ a, ofNat (toNat a) = a)
    (hlt : ∀ a, toNat a < bound) (value : Value) (a : α) :
    (value.natural? bound).map ofNat = some a ↔ value = .integer (toNat a) := by
  simp only [Option.map_eq_some_iff, natural?_eq_some_iff]
  constructor
  · rintro ⟨n, ⟨rfl, hn⟩, rfl⟩
    rw [hof n hn]
  · rintro rfl
    exact ⟨toNat a, ⟨rfl, hlt a⟩, hto a⟩

/-- A strict reader finds the fields that a value has. -/
lemma fields?_refuse_eq_some_iff (names : List String) (value : Value) (fields : Table) :
    value.fields? .refuse names = some fields ↔ value.HasFields names fields := by
  constructor
  · intro h
    cases value with
    | table entries =>
      cases h
      exact .table _
    | array items =>
      simp only [fields?, true_and, Option.ite_none_left_eq_some, Nat.not_lt,
        Option.some.injEq] at h
      obtain ⟨hlength, rfl⟩ := h
      exact .list items hlength
    | moment text =>
      cases h
      exact .moment _
    | _ => cases h
  · intro h
    cases h with
    | table => rfl
    | list items hlength => simp [fields?, hlength]
    | moment => rfl

end Value

end Toml

/-! ## Problems and limits -/

/-- The fields say what the problem is. Only its initial value has to be among them. -/
structure Problem.WrittenIn (problem : Problem) (fields : Toml.Table) : Prop where
  id : fields.SaysOr "id" "" (· = .string ·) problem.id
  title : fields.SaysOr "title" "" (· = .string ·) problem.title
  description : fields.SaysOr "description" "" (· = .string ·) problem.description
  initialValue : fields.Says "initial_value" Toml.Value.IsNumber (some problem.initialValue)
  targetValue : fields.Says "target_value" Toml.Value.IsNumber problem.targetValue
  precision : fields.SaysOr "precision" defaultPrecision (fun value n => value = .integer n.toNat)
    problem.precision

/-- The fields say what the limits are. -/
structure Limits.WrittenIn (limits : Limits) (fields : Toml.Table) : Prop where
  iterationCap : fields.SaysOr "iteration_cap" defaultIterationCap
    (fun value n => value = .integer n.toNat) limits.iterationCap
  timeLimit : fields.Says "time_limit_ms" (fun value n => value = .integer n.toNat) limits.timeLimit

section

open Toml.Fields Toml.Value

/-- A problem is read as what its fields say. -/
lemma Problem.ofFields?_eq_some_iff (fields : Toml.Table) (problem : Problem) :
    ofFields? fields = some problem ↔ problem.WrittenIn fields := by
  have hprecision := map_natural?_eq_some_iff (fun _ => UInt32.toNat_ofNat_of_lt')
    (fun _ => UInt32.ofNat_toNat) UInt32.toNat_lt
  simp only [ofFields?, Option.bind_eq_bind, Option.bind_eq_some_iff, Option.pure_def,
    Option.some.injEq, withDefault_eq_some_iff string?_eq_some_iff,
    required_eq_some_iff number?_eq_some_iff, optional_eq_some_iff number?_eq_some_iff]
  constructor
  · rintro ⟨id, hid, title, htitle, text, htext, initial, hinitial, target, htarget, n, hn, rfl⟩
    exact ⟨hid, htitle, htext, hinitial, htarget,
      (exists_withDefault_iff hprecision).mp ⟨n, hn, rfl⟩⟩
  · rintro ⟨hid, htitle, htext, hinitial, htarget, hn⟩
    obtain ⟨n, hn, heq⟩ := (exists_withDefault_iff hprecision).mpr hn
    exact ⟨_, hid, _, htitle, _, htext, _, hinitial, _, htarget, n, hn, by rw [heq]⟩

/-- Limits are read as what their fields say. -/
lemma Limits.ofFields?_eq_some_iff (fields : Toml.Table) (limits : Limits) :
    ofFields? fields = some limits ↔ limits.WrittenIn fields := by
  have hcount := map_natural?_eq_some_iff (fun _ => UInt64.toNat_ofNat_of_lt')
    (fun _ => UInt64.ofNat_toNat) UInt64.toNat_lt
  simp only [ofFields?, Option.bind_eq_bind, Option.bind_eq_some_iff, Option.pure_def,
    Option.some.injEq]
  constructor
  · rintro ⟨cap, hcap, limit, hlimit, rfl⟩
    exact ⟨(exists_withDefault_iff hcount).mp ⟨cap, hcap, rfl⟩,
      (exists_optional_iff hcount).mp ⟨limit, hlimit, rfl⟩⟩
  · rintro ⟨hcap, hlimit⟩
    obtain ⟨cap, hcap, hcap'⟩ := (exists_withDefault_iff hcount).mpr hcap
    obtain ⟨limit, hlimit, hlimit'⟩ := (exists_optional_iff hcount).mpr hlimit
    exact ⟨cap, hcap, limit, hlimit, by rw [hcap', hlimit']⟩

end

/-! ## Programs -/

/-- The keys of the document say what is in the file: the problem, the limits and the records of the
slots. The problem can be missing, and so can the others. -/
structure ProgramFile.WrittenIn (file : ProgramFile) (document : Toml.Table) : Prop where
  problem : document.Says "problem"
    (fun value problem => ∃ fields, value.HasFields
      ["id", "title", "description", "initial_value", "target_value", "precision"] fields ∧
        problem.WrittenIn fields) file.problem
  limits : document.SaysOr "limits" {}
    (fun value limits => ∃ fields, value.HasFields ["iteration_cap", "time_limit_ms"] fields ∧
      limits.WrittenIn fields) file.limits
  slots : document.SaysOr "slots" []
    (fun value records => BlockRecord.listOfValue? value = some records) file.slots

section

open Toml.Fields Toml.Value

/-- The parts that have to do with a program are read strictly as what the keys say. -/
lemma ProgramFile.ofTable?_eq_some_iff (document : Toml.Table) (file : ProgramFile) :
    ofTable? .refuse document = some file ↔ file.WrittenIn document := by
  have hproblem (value : Toml.Value) (problem : Problem) :
      (value.fields? .refuse Problem.fieldNames).bind Problem.ofFields? = some problem ↔
        ∃ fields, value.HasFields Problem.fieldNames fields ∧ problem.WrittenIn fields := by
    simp only [Option.bind_eq_some_iff, fields?_refuse_eq_some_iff, Problem.ofFields?_eq_some_iff]
  have hlimits (value : Toml.Value) (limits : Limits) :
      (value.fields? .refuse Limits.fieldNames).bind Limits.ofFields? = some limits ↔
        ∃ fields, value.HasFields Limits.fieldNames fields ∧ limits.WrittenIn fields := by
    simp only [Option.bind_eq_some_iff, fields?_refuse_eq_some_iff, Limits.ofFields?_eq_some_iff]
  simp only [ofTable?, BlockRecord.slots?, Option.bind_eq_bind, Option.bind_eq_some_iff,
    Option.pure_def, Option.some.injEq, optional_eq_some_iff hproblem,
    withDefault_eq_some_iff hlimits, withDefault_eq_some_iff fun _ _ => Iff.rfl]
  constructor
  · rintro ⟨problem, hproblem, limits, hlimits, slots, hslots, rfl⟩
    exact ⟨hproblem, hlimits, hslots⟩
  · rintro ⟨hproblem, hlimits, hslots⟩
    exact ⟨_, hproblem, _, hlimits, _, hslots, rfl⟩

end

/-! ## Tests -/

namespace TestFile

/-- A diagnostic is expected by a table that has a part of its message, or by a list that begins
with one. -/
inductive IsPart : Toml.Value → String → Prop
  | named {entries : Toml.Table} {part : String}
    (h : entries.lookup "contains" = some (.string part)) : IsPart (.table entries) part
  | listed {items : List Toml.Value} {part : String} : IsPart (.array (.string part :: items)) part

/-- The keys of the document say what is in the test file: what is expected of the run and what it
begins with, and the program with its problem and its limits. -/
structure WrittenIn (test : TestFile) (document : Toml.Table) : Prop where
  description : document.Says "description" (· = .string ·) test.description
  initial : document.Says "initial" Toml.Value.IsNumber test.initial
  value : document.Says "expect_value" Toml.Value.IsNumber test.value
  output : document.Says "expect_output" (· = .string ·) test.output
  solved : document.Says "expect_solved" (· = .boolean ·) test.solved
  interrupted : document.Says "expect_interrupted" (· = .boolean ·) test.interrupted
  diagnostics : document.Says "expect_diagnostics"
    (fun value parts => ∃ items, value = .array items ∧ List.Forall₂ IsPart items parts)
    test.diagnostics
  file : test.file.WrittenIn document

/-- A part of a message is read as what the value expects. -/
lemma partOfValue?_eq_some_iff (value : Toml.Value) (part : String) :
    partOfValue? value = some part ↔ IsPart value part := by
  constructor
  · intro h
    obtain ⟨fields, hfields, hpart⟩ := Option.bind_eq_some_iff.mp h
    obtain ⟨found, hfound, rfl⟩ :=
      (Toml.Fields.required_eq_some_iff Toml.Value.string?_eq_some_iff).mp hpart
    cases value with
    | table entries =>
      cases hfields
      exact .named hfound
    | array items =>
      obtain rfl : ["contains"].zip items = fields := by simpa [Toml.Value.fields?] using hfields
      cases items with
      | nil => cases hfound
      | cons item items =>
        cases hfound
        exact .listed
    | moment text =>
      cases hfields
      cases hfound
    | _ => cases hfields
  · rintro (hfound | _)
    · simp [partOfValue?, Toml.Value.fields?, Toml.Fields.required, Toml.Value.string?, hfound]
    · rfl

/-- A list is read item by item. -/
lemma mapM_eq_some_iff {α β : Type} {read : α → Option β} {items : List α} {as : List β} :
    items.mapM read = some as ↔ List.Forall₂ (fun item a => read item = some a) items as := by
  induction items generalizing as with
  | nil => cases as <;> simp
  | cons item items ih =>
    cases as with
    | nil => simp [Option.bind_eq_some_iff]
    | cons a as => simp [Option.bind_eq_some_iff, List.forall₂_cons, ← ih]

/-- Expected diagnostics are read from a list, one from each item. -/
lemma partsOfValue?_eq_some_iff (value : Toml.Value) (parts : List String) :
    partsOfValue? value = some parts ↔
      ∃ items, value = .array items ∧ List.Forall₂ IsPart items parts := by
  cases value with
  | array items => simp [partsOfValue?, mapM_eq_some_iff, partOfValue?_eq_some_iff]
  | _ => simp [partsOfValue?]

open Toml.Fields Toml.Value in
/-- A document is read as the test file that its keys say. -/
theorem ofTable?_eq_some_iff (document : Toml.Table) (test : TestFile) :
    ofTable? document = some test ↔ test.WrittenIn document := by
  simp only [ofTable?, Option.bind_eq_bind, Option.bind_eq_some_iff, Option.pure_def,
    Option.some.injEq, optional_eq_some_iff string?_eq_some_iff,
    optional_eq_some_iff number?_eq_some_iff, optional_eq_some_iff boolean?_eq_some_iff,
    optional_eq_some_iff partsOfValue?_eq_some_iff, ProgramFile.ofTable?_eq_some_iff]
  constructor
  · rintro ⟨description, hdescription, initial, hinitial, value, hvalue, output, houtput, solved,
      hsolved, interrupted, hinterrupted, diagnostics, hdiagnostics, file, hfile, rfl⟩
    exact ⟨hdescription, hinitial, hvalue, houtput, hsolved, hinterrupted, hdiagnostics, hfile⟩
  · rintro ⟨hdescription, hinitial, hvalue, houtput, hsolved, hinterrupted, hdiagnostics, hfile⟩
    exact ⟨_, hdescription, _, hinitial, _, hvalue, _, houtput, _, hsolved, _, hinterrupted, _,
      hdiagnostics, _, hfile, rfl⟩

end TestFile

end BlockLang
