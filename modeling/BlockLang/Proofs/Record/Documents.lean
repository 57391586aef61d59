import BlockLang.Proofs.Record.Canonical
import BlockLang.Proofs.Toml.RoundTrip
import BlockLang.Record.Toml

/-!
# Programs as documents

A program is saved as a document and loaded from it. Main statement: nothing is lost on the way,
whatever characters are in the texts and names, and however deep the blocks are inside each other.
-/

namespace BlockLang

namespace BlockRecord

open Toml (RegularItems RegularEntries arrangedItems arrangedEntries)

/-! ## The tables of records -/

mutual

/-- How many lists of records there are inside each other in a record. -/
def depth : BlockRecord → ℕ
  | forLoop _ _ _ _ body => depthAll body
  | whileLoop _ body => depthAll body
  | ifElse _ ifPart elsePart => max (depthAll ifPart) (depthAll elsePart)
  | _ => 0

/-- How many lists of records there are inside each other, the list itself included. -/
def depthAll : List BlockRecord → ℕ
  | [] => 1
  | r :: rs => max (r.depth + 1) (depthAll rs)

end

/-- The table of a record. -/
def table (r : BlockRecord) : Toml.Table := ("kind", .string r.kind) :: r.entries

lemma tables_cons (r : BlockRecord) (rs : List BlockRecord) :
    tables (r :: rs) = .table r.table :: tables rs := by
  rw [tables, table]

section

variable {α : Type} {name : String} {value : α → Toml.Value} {field : Option α}

lemma keys_field_sublist : (List.map Prod.fst <| entry? name value field).Sublist [name] := by
  cases field with
  | none => exact List.nil_sublist _
  | some a => exact List.Sublist.refl _

lemma regularEntries_append {entries entries' : Toml.Table} :
    RegularEntries (entries ++ entries') ↔ RegularEntries entries ∧ RegularEntries entries' := by
  induction entries with
  | nil => simp [RegularEntries]
  | cons entry entries ih =>
    obtain ⟨key, value⟩ := entry
    rw [List.cons_append, RegularEntries, RegularEntries, ih, and_assoc, and_assoc]

/-- A field with a regular value is regular. -/
lemma regularEntries_field (h : ∀ a, (value a).isTable = false ∧ (value a).Regular) :
    RegularEntries <| entry? name value field := by
  cases field with
  | none => trivial
  | some a => exact ⟨(h a).1, (h a).2, trivial⟩

end

/-- Fields are written in the order of their names, and some are left out. -/
lemma keys_entries_sublist (r : BlockRecord) :
    (r.entries.map Prod.fst).Sublist (fieldNames r.kind) := by
  cases r with
  | statement text locked =>
    rw [entries]
    cases locked with
    | false => exact (List.nil_sublist ["locked"]).cons_cons "text"
    | true => exact List.Sublist.refl _
  | addCounter name => exact keys_field_sublist
  | forLoop counter init condition increment body =>
    rw [entries]
    simp only [List.map_append]
    exact (((keys_field_sublist.append keys_field_sublist).append keys_field_sublist).append
      keys_field_sublist).append (List.Sublist.refl ["body"])
  | whileLoop condition body =>
    rw [entries]
    simp only [List.map_append]
    exact keys_field_sublist.append (List.Sublist.refl ["body"])
  | ifElse condition ifPart elsePart =>
    rw [entries]
    simp only [List.map_append]
    exact keys_field_sublist.append (List.Sublist.refl ["if_body", "else_body"])
  | _ => exact List.nil_sublist _

/-- No field is written twice. -/
lemma keys_table_nodup (r : BlockRecord) : (r.table.map Prod.fst).Nodup := by
  have hnames : ("kind" :: fieldNames r.kind).Nodup := by
    cases r <;> rw [kind] <;> decide
  exact hnames.sublist (r.keys_entries_sublist.cons_cons "kind")

lemma regular_string (text : String) :
    (Toml.Value.string text).isTable = false ∧ (Toml.Value.string text).Regular := by
  simp [Toml.Value.isTable, Toml.Value.Regular]

lemma regular_float (a : Float) :
    (Toml.Value.float a).isTable = false ∧ (Toml.Value.float a).Regular := by
  simp [Toml.Value.isTable, Toml.Value.Regular]

mutual

lemma regular_table (r : BlockRecord) : (Toml.Value.table r.table).Regular := by
  have hnodup := r.keys_table_nodup
  have hkind (entries : Toml.Table) (h : RegularEntries entries) :
      RegularEntries (("kind", .string r.kind) :: entries) := by
    rw [RegularEntries]
    exact ⟨(regular_string _).1, (regular_string _).2, h⟩
  have hlist (name : String) (rs : List BlockRecord) (h : RegularItems (tables rs))
      (entries : Toml.Table) (hentries : RegularEntries entries) :
      RegularEntries ((name, .array (tables rs)) :: entries) := by
    rw [RegularEntries, Toml.Value.Regular]
    exact ⟨rfl, h, hentries⟩
  rw [Toml.Value.Regular]
  refine ⟨hnodup, hkind _ ?_⟩
  cases r with
  | statement text locked =>
    rw [entries, RegularEntries]
    refine ⟨(regular_string text).1, (regular_string text).2, ?_⟩
    cases locked with
    | false => trivial
    | true => simp [RegularEntries, Toml.Value.isTable, Toml.Value.Regular]
  | addCounter name => exact regularEntries_field regular_string
  | forLoop counter init condition increment body =>
    rw [entries]
    simp only [regularEntries_append]
    exact ⟨⟨⟨⟨regularEntries_field regular_string, regularEntries_field regular_float⟩,
      regularEntries_field regular_string⟩, regularEntries_field regular_float⟩,
      hlist "body" body (regular_tables body) [] trivial⟩
  | whileLoop condition body =>
    rw [entries, regularEntries_append]
    exact ⟨regularEntries_field regular_string, hlist "body" body (regular_tables body) [] trivial⟩
  | ifElse condition ifPart elsePart =>
    rw [entries, regularEntries_append]
    exact ⟨regularEntries_field regular_string,
      hlist "if_body" ifPart (regular_tables ifPart) _
        (hlist "else_body" elsePart (regular_tables elsePart) [] trivial)⟩
  | _ => trivial

lemma regular_tables (rs : List BlockRecord) : RegularItems (tables rs) := by
  cases rs with
  | nil =>
    rw [tables]
    trivial
  | cons r rs =>
    rw [tables_cons, RegularItems]
    exact ⟨rfl, regular_table r, regular_tables rs⟩

end

/-! ## How deep the tables are -/

lemma entriesDepth_append (entries entries' : Toml.Table) :
    Toml.entriesDepth (entries ++ entries') =
      max (Toml.entriesDepth entries) (Toml.entriesDepth entries') := by
  induction entries with
  | nil => simp [Toml.entriesDepth]
  | cons entry entries ih =>
    obtain ⟨key, value⟩ := entry
    rw [List.cons_append, Toml.entriesDepth, Toml.entriesDepth, ih, max_assoc]

lemma entriesDepth_field {α : Type} {value : α → Toml.Value} (h : ∀ a, (value a).depth = 0)
    (name : String) (field : Option α) :
    (Toml.entriesDepth <| entry? name value field) = 0 := by
  cases field with
  | none => rfl
  | some a =>
    show max (value a).depth 0 = 0
    rw [h, max_self]

mutual

/-- The table of a record is as deep as the record. -/
lemma depth_table (r : BlockRecord) : (Toml.Value.table r.table).depth = r.depth := by
  have hstring (text : String) : (Toml.Value.string text).depth = 0 := by simp [Toml.Value.depth]
  have hfloat (a : Float) : (Toml.Value.float a).depth = 0 := by simp [Toml.Value.depth]
  rw [Toml.Value.depth, table, Toml.entriesDepth, hstring, zero_max]
  cases r with
  | statement text locked =>
    cases locked <;> simp [entries, depth, Toml.entriesDepth, Toml.Value.depth]
  | addCounter name => simp [entries, depth, entriesDepth_field hstring]
  | forLoop counter init condition increment body =>
    rw [entries, depth]
    simp only [entriesDepth_append, entriesDepth_field hstring, entriesDepth_field hfloat,
      Toml.entriesDepth, Toml.Value.depth, itemsDepth_tables body, max_self, zero_max, max_zero]
  | whileLoop condition body =>
    rw [entries, depth]
    simp only [entriesDepth_append, entriesDepth_field hstring, Toml.entriesDepth,
      Toml.Value.depth, itemsDepth_tables body, zero_max, max_zero]
  | ifElse condition ifPart elsePart =>
    rw [entries, depth]
    simp only [entriesDepth_append, entriesDepth_field hstring, Toml.entriesDepth,
      Toml.Value.depth, itemsDepth_tables ifPart, itemsDepth_tables elsePart, zero_max, max_zero]
  | _ => simp [entries, depth, Toml.entriesDepth]

lemma itemsDepth_tables (rs : List BlockRecord) :
    Toml.itemsDepth (tables rs) + 1 = depthAll rs := by
  cases rs with
  | nil =>
    rw [tables, Toml.itemsDepth, depthAll]
  | cons r rs =>
    rw [tables_cons, Toml.itemsDepth, depthAll, depth_table r, ← itemsDepth_tables rs,
      Nat.add_max_add_right]

end

/-! ## Reading records -/

/-- The part of a record for a value that is written and read back. -/
def restored (value : Toml.Value) : Part := ⟨value.arranged, listOfValue? value.arranged⟩

lemma lookup_namedParts (entries : Toml.Table) (name : String) :
    (namedParts entries).lookup name =
      (entries.lookup name).map fun value => ⟨value, listOfValue? value⟩ := by
  induction entries with
  | nil =>
    rw [namedParts]
    rfl
  | cons entry entries ih =>
    obtain ⟨key, value⟩ := entry
    rw [namedParts, List.lookup_cons, List.lookup_cons, ih]
    cases name == key <;> rfl

/-- The parts of a record that is read back. -/
abbrev restoredParts (r : BlockRecord) : Toml.Fields Part := namedParts (arrangedEntries r.table)

lemma lookup_restoredParts (r : BlockRecord) (name : String) :
    (restoredParts r).lookup name = (r.table.lookup name).map restored := by
  rw [restoredParts, lookup_namedParts, Toml.lookup_arrangedEntries r.regular_table,
    Option.map_map]
  rfl

lemma string?_restored (text : String) : (restored (.string text)).string? = some text := by
  simp [restored, Part.string?, Toml.Value.arranged, Toml.Value.string?]

lemma number?_restored (a : Float) : (restored (.float a)).number? = some a := by
  simp [restored, Part.number?, Toml.Value.arranged, Toml.Value.number?]

lemma boolean?_restored (b : Bool) : (restored (.boolean b)).value.boolean? = some b := by
  simp [restored, Toml.Value.arranged, Toml.Value.boolean?]

lemma ofNamed?_restoredParts (r : BlockRecord) :
    ofNamed? (restoredParts r) = ofFields? r.kind (restoredParts r) := by
  have hkind : (restoredParts r).required "kind" Part.string? = some r.kind := by
    rw [Toml.Fields.required, lookup_restoredParts, table, List.lookup_cons_self]
    exact string?_restored r.kind
  rw [ofNamed?, hkind]
  rfl

section

variable {r : BlockRecord} {name : String} (hname : name ≠ "kind")
include hname

/-- Any other field is looked up among the entries. -/
lemma lookup_restoredParts_of_ne :
    (restoredParts r).lookup name = (r.entries.lookup name).map restored := by
  rw [lookup_restoredParts, table, List.lookup_cons, beq_false_of_ne hname]

/-- A field that can be missing is read back if it is found among the entries. -/
lemma optional_restoredParts {α : Type} {value : α → Toml.Value} {read : Part → Option α}
    (field : Option α) (hread : ∀ a, read (restored (value a)) = some a)
    (hlookup : r.entries.lookup name = field.map value) :
    (restoredParts r).optional name read = some field := by
  rw [Toml.Fields.optional, lookup_restoredParts_of_ne hname, hlookup]
  cases field with
  | none => rfl
  | some a =>
    show (read (restored (value a))).map some = _
    rw [hread]
    rfl

/-- A list of records is read back if its records are. -/
lemma withDefault_restoredParts {rs : List BlockRecord}
    (hread : ofValues? (arrangedItems (tables rs)) = some rs)
    (hlookup : r.entries.lookup name = some (.array (tables rs))) :
    (restoredParts r).withDefault name Part.records? [] = some rs := by
  have hrecords : (restored (.array (tables rs))).records? = some rs := by
    rw [restored, Toml.Value.arranged, listOfValue?]
    exact hread
  rw [Toml.Fields.withDefault, Toml.Fields.optional, lookup_restoredParts_of_ne hname, hlookup]
  show ((restored (.array (tables rs))).records?.map some).map _ = _
  rw [hrecords]
  rfl

end

/-- A field is found under its own name only. -/
@[simp] lemma lookup_field {α : Type} (name key : String) (value : α → Toml.Value)
    (field : Option α) :
    (List.lookup key <| entry? name value field) =
      if key = name then field.map value else none := by
  cases field with
  | none =>
    show none = _
    split <;> rfl
  | some a =>
    show (match key == name with | true => some (value a) | false => none) = _
    by_cases h : key = name
    · rw [if_pos h, beq_iff_eq.mpr h]
      rfl
    · rw [if_neg h, beq_false_of_ne h]

mutual

/-- A record is read back from its table. -/
theorem ofValue?_arranged (r : BlockRecord) :
    ofValue? (Toml.Value.table r.table).arranged = some r := by
  -- Each field is found among the entries, whether or not those before it are there.
  have hfield {name : String} (hname : name ≠ "kind") {α : Type} :=
    @optional_restoredParts r name hname α
  have hlist {name : String} (hname : name ≠ "kind") := @withDefault_restoredParts r name hname
  rw [Toml.Value.arranged, ofValue?]
  refine (ofNamed?_restoredParts r).trans ?_
  cases r with
  | statement text locked =>
    have htext : (restoredParts (statement text locked)).required "text" Part.string? =
        some text := by
      rw [Toml.Fields.required, lookup_restoredParts_of_ne (by decide), entries,
        List.lookup_cons_self]
      exact string?_restored text
    -- A lock that is not there is left out.
    have hlocked : (restoredParts (statement text locked)).optional "locked"
        (fun part => part.value.boolean?) = some (if locked then some true else none) :=
      hfield (by decide) _ boolean?_restored
        (by cases locked <;> simp [entries, List.lookup_cons])
    rw [kind, ofFields?]
    simp only [htext, Toml.Fields.withDefault, hlocked]
    cases locked <;> rfl
  | addCounter name =>
    have hname := hfield (by decide : "name" ≠ "kind") name string?_restored (by simp [entries])
    rw [kind, ofFields?, hname]
    rfl
  | forLoop counter init condition increment body =>
    have hcounter := hfield (by decide : "counter" ≠ "kind") counter string?_restored
      (by simp [entries, List.lookup_append, List.lookup_cons])
    have hinit := hfield (by decide : "init" ≠ "kind") init number?_restored
      (by simp [entries, List.lookup_append, List.lookup_cons])
    have hcondition := hfield (by decide : "condition" ≠ "kind") condition string?_restored
      (by simp [entries, List.lookup_append, List.lookup_cons])
    have hincrement := hfield (by decide : "increment" ≠ "kind") increment number?_restored
      (by simp [entries, List.lookup_append, List.lookup_cons])
    have hbody := hlist (by decide : "body" ≠ "kind") (ofValues?_arranged body)
      (by simp [entries, List.lookup_append])
    rw [kind, ofFields?]
    simp only [hcounter, hinit, hcondition, hincrement, hbody]
    rfl
  | whileLoop condition body =>
    have hcondition := hfield (by decide : "condition" ≠ "kind") condition string?_restored
      (by simp [entries, List.lookup_append, List.lookup_cons])
    have hbody := hlist (by decide : "body" ≠ "kind") (ofValues?_arranged body)
      (by simp [entries, List.lookup_append])
    rw [kind, ofFields?]
    simp only [hcondition, hbody]
    rfl
  | ifElse condition ifPart elsePart =>
    have hcondition := hfield (by decide : "condition" ≠ "kind") condition string?_restored
      (by simp [entries, List.lookup_append, List.lookup_cons])
    have hif := hlist (by decide : "if_body" ≠ "kind") (ofValues?_arranged ifPart)
      (by simp [entries, List.lookup_append])
    have helse := hlist (by decide : "else_body" ≠ "kind") (ofValues?_arranged elsePart)
      (by simp [entries, List.lookup_append, List.lookup_cons])
    rw [kind, ofFields?]
    simp only [hcondition, hif, helse]
    rfl
  | _ => rfl

/-- A list of records is read back from its arranged tables. -/
theorem ofValues?_arranged (rs : List BlockRecord) :
    ofValues? (arrangedItems (tables rs)) = some rs := by
  cases rs with
  | nil =>
    rw [tables, arrangedItems, ofValues?]
  | cons r rs =>
    rw [tables_cons, arrangedItems, ofValues?, ofValue?_arranged r, ofValues?_arranged rs]

end

/-! ## Documents -/

/-- The records of a document are read back from its text. -/
theorem slots?_document {limit : ℕ} {records : List BlockRecord}
    (hlimit : depthAll records ≤ limit) :
    ((Toml.readWithin limit (document records)).bind slots?) = some records := by
  have hdepth := itemsDepth_tables records
  have hregular : (Toml.Value.table [("slots", .array (tables records))]).Regular := by
    simp [Toml.Value.Regular, RegularEntries, regular_tables, Toml.Value.isTable]
  have hrecords : (Toml.Value.table [("slots", .array (tables records))]).depth ≤ limit := by
    simp only [Toml.Value.depth, Toml.entriesDepth, max_zero]
    omega
  have hpos : 0 < limit := by omega
  have hread := Toml.readWithin_write hpos hregular hrecords
  have hslots : (arrangedEntries [("slots", .array (tables records))]).lookup "slots" =
      some (.array (arrangedItems (tables records))) := by
    rw [Toml.lookup_arrangedEntries hregular]
    simp [Toml.Value.arranged]
  rw [document, hread, Option.bind_some, slots?, Toml.Fields.withDefault, Toml.Fields.optional,
    hslots]
  show ((listOfValue? (.array (arrangedItems (tables records)))).map some).map _ = _
  rw [listOfValue?, ofValues?_arranged records]
  rfl

/-! ## Numbers -/

mutual

/-- The numbers in a record. -/
def numbers : BlockRecord → List Float
  | forLoop _ init _ increment body => init.toList ++ increment.toList ++ numbersAll body
  | whileLoop _ body => numbersAll body
  | ifElse _ ifPart elsePart => numbersAll ifPart ++ numbersAll elsePart
  | _ => []

def numbersAll : List BlockRecord → List Float
  | [] => []
  | r :: rs => r.numbers ++ numbersAll rs

end

mutual

/-- A record without NaN says the same as itself. -/
theorem same_self (r : BlockRecord) (h : ∀ a ∈ r.numbers, a.isNaN = false) : r.same r = true := by
  cases r with
  | forLoop counter init condition increment body =>
    rw [numbers] at h
    have hinit : (init == init) = true := by
      cases init with
      | none => rfl
      | some a => exact Number.beq_self_of_not_isNaN (h a (by simp))
    have hincrement : (increment == increment) = true := by
      cases increment with
      | none => rfl
      | some a => exact Number.beq_self_of_not_isNaN (h a (by simp))
    have hbody := sameList_self body fun a ha => h a (by simp [ha])
    rw [same, hinit, hincrement, hbody]
    simp
  | whileLoop condition body =>
    rw [numbers] at h
    rw [same, sameList_self body h]
    simp
  | ifElse condition ifPart elsePart =>
    rw [numbers] at h
    rw [same, sameList_self ifPart fun a ha => h a (List.mem_append_left _ ha),
      sameList_self elsePart fun a ha => h a (List.mem_append_right _ ha)]
    simp
  | statement text locked => simp [same]
  | addCounter name => simp [same]
  | _ => rfl

/-- Without NaN, a list of records is the same as itself. -/
theorem sameList_self (rs : List BlockRecord) (h : ∀ a ∈ numbersAll rs, a.isNaN = false) :
    sameList rs rs = true := by
  cases rs with
  | nil => rfl
  | cons r rs =>
    rw [numbersAll] at h
    rw [sameList, same_self r fun a ha => h a (List.mem_append_left _ ha),
      sameList_self rs fun a ha => h a (List.mem_append_right _ ha)]
    rfl

end

end BlockRecord

namespace Program

/-! ## Saving and loading -/

/-- Loads a program from its text, if the text keeps to the limit. -/
def ofTomlWithin? (limit : ℕ) (text : String) (supply : Supply) : Option (Program × Supply) := do
  return ofRecords (← BlockRecord.slots? (← Toml.readWithin limit text)) supply

lemma ofToml?_eq_ofTomlWithin? : ofToml? = ofTomlWithin? Toml.depthLimit := by
  funext text supply
  show ((Toml.read text).bind BlockRecord.slots?).bind _ = _
  rw [Option.bind_assoc]
  rfl

/-- What is loaded from a saved program: the blocks of its records, with new identities. -/
lemma ofTomlWithin?_toToml (p : Program) (supply : Supply) {limit : ℕ}
    (hlimit : BlockRecord.depthAll p.records ≤ limit) :
    ofTomlWithin? limit p.toToml supply = some (ofRecords p.records supply) := by
  have hslots := BlockRecord.slots?_document hlimit
  show (Toml.readWithin limit (BlockRecord.document p.records)).bind (fun table =>
    (BlockRecord.slots? table).bind fun records => some (ofRecords records supply)) = _
  rw [← Option.bind_assoc, hslots]
  rfl

/-- Main statement: a program that is saved as a document is loaded from it, and its records are
those that were saved. -/
theorem records_of_toToml (p : Program) (supply : Supply) {limit : ℕ}
    (hlimit : BlockRecord.depthAll p.records ≤ limit)
    (hnumbers : ∀ a ∈ BlockRecord.numbersAll p.records, a.isNaN = false) :
    ∃ loaded next, ofTomlWithin? limit p.toToml supply = some (loaded, next) ∧
      loaded.records = p.records ∧ BlockRecord.sameList loaded.records p.records = true := by
  have hrecords := records_ofRecords_records p supply
  refine ⟨(ofRecords p.records supply).1, (ofRecords p.records supply).2,
    p.ofTomlWithin?_toToml supply hlimit, hrecords, ?_⟩
  rw [hrecords]
  exact BlockRecord.sameList_self p.records hnumbers

/-- A program with quotes, a backslash, a line feed and a control character in a text, a gap, a
name with a blank, negative zero, infinity and an empty part. -/
def oddlySpelled : Program :=
  (ofRecords [
    .statement "say \"a\\b\"\n'''é\x01" true,
    .empty,
    .forLoop (some "x y") (some (.ofModel (.pack (.zero .negative)))) none (some Number.infinity)
      [.whileLoop (some "") [.ifElse none [] [.leave]]]] {}).1

theorem oddlySpelled_records_of_toToml :
    BlockRecord.depthAll oddlySpelled.records ≤ 4 ∧
      (∀ a ∈ BlockRecord.numbersAll oddlySpelled.records, a.isNaN = false) ∧
      ∃ loaded next, ofTomlWithin? 4 oddlySpelled.toToml {} = some (loaded, next) ∧
        loaded.records = oddlySpelled.records ∧
        BlockRecord.sameList loaded.records oddlySpelled.records = true := by
  have hdepth : BlockRecord.depthAll oddlySpelled.records ≤ 4 := by decide
  have hnumbers : ∀ a ∈ BlockRecord.numbersAll oddlySpelled.records, a.isNaN = false := by decide
  exact ⟨hdepth, hnumbers, oddlySpelled.records_of_toToml {} hdepth hnumbers⟩

/-- The limit for documents is enough for programs that are less deep. -/
theorem ofToml?_toToml (p : Program) (supply : Supply)
    (h : BlockRecord.depthAll p.records ≤ Toml.depthLimit) :
    ofToml? p.toToml supply = some (ofRecords p.records supply) := by
  rw [ofToml?_eq_ofTomlWithin?]
  exact p.ofTomlWithin?_toToml supply h

end Program

end BlockLang
