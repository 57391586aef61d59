import BlockLang.Proofs.Toml.Lines

/-!
# Documents as lines

What is written for a document is read line by line. Main statement: the lines that are read are
those of the plain entries, and those of the sections in their order.
-/

namespace BlockLang.Toml

/-! ## Regular values -/

mutual

/-- A plain value, a list of tables, or a table of such values. The keys of a table differ. -/
def Value.Regular : Value → Prop
  | .string _ | .float _ | .boolean _ => True
  | .array items => RegularItems items
  | .table entries => (entries.map Prod.fst).Nodup ∧ RegularEntries entries
  | .integer _ | .moment _ => False

def RegularItems : List Value → Prop
  | [] => True
  | item :: items => item.isTable ∧ item.Regular ∧ RegularItems items

def RegularEntries : Table → Prop
  | [] => True
  | (_, value) :: entries => value.isTable = false ∧ value.Regular ∧ RegularEntries entries

end

mutual

/-- How many lists there are inside each other. -/
def Value.depth : Value → ℕ
  | .array items => itemsDepth items + 1
  | .table entries => entriesDepth entries
  | _ => 0

def itemsDepth : List Value → ℕ
  | [] => 0
  | item :: items => max item.depth (itemsDepth items)

def entriesDepth : Table → ℕ
  | [] => 0
  | (_, value) :: entries => max value.depth (entriesDepth entries)

end

lemma all_isTable_of_regularItems {items : List Value} (h : RegularItems items) :
    items.all Value.isTable = true := by
  induction items with
  | nil => rfl
  | cons item items ih =>
    rw [RegularItems] at h
    rw [List.all_cons, h.1, ih h.2.2]
    rfl

/-- A regular entry is on a line of its own or has sections. -/
lemma plain_of_regular {value : Value} (h : value.Regular) (htable : value.isTable = false)
    (hsections : value.isSections = false) : value.Plain := by
  cases value with
  | string text => exact .string text
  | float a => exact .float a
  | boolean b => exact .boolean b
  | array items =>
    cases items with
    | nil => exact .nil
    | cons item items =>
      rw [Value.Regular] at h
      rw [Value.isSections, all_isTable_of_regularItems h] at hsections
      cases hsections
  | table entries => cases htable
  | integer n =>
    rw [Value.Regular] at h
    exact h.elim
  | moment text =>
    rw [Value.Regular] at h
    exact h.elim

/-! ## Lines -/

/-- The entries that are written on a line each. -/
def plainEntries (entries : Table) : Table :=
  entries.filter fun entry => !entry.2.isSections

/-- The lines of the plain entries of a table. -/
def pairLines (entries : Table) : List Line :=
  (plainEntries entries).map fun entry => .pair ⟨[], entry.1⟩ entry.2

mutual

/-- The lines of a table in the list with the given path. -/
def Value.sectionLines (path : KeyPath) : Value → List Line
  | .table entries => .itemHeader path :: (pairLines entries ++ entryLines path.toList entries)
  | _ => []

def itemLines (path : KeyPath) : List Value → List Line
  | [] => []
  | item :: items => item.sectionLines path ++ itemLines path items

/-- The lines of the entries of a table that are lists of tables. -/
def entryLines (path : List String) : Table → List Line
  | [] => []
  | (key, .array items) :: entries => itemLines ⟨path, key⟩ items ++ entryLines path entries
  | _ :: entries => entryLines path entries

end

/-! ## Reading -/

variable {limit : ℕ}

/-- The text is read as the lines, whatever comes after it. It is read as it stands: it has no
carriage returns and does not begin with the mark of a file. -/
structure ReadsAs (limit : ℕ) (text : List Char) (lines : List Line) : Prop where
  readLines (rest : List Char) :
    readLines limit (text ++ rest) = (readLines limit rest).map (lines ++ ·)
  return_not_mem : '\r' ∉ text
  head : text.head? ≠ some '\ufeff'

namespace ReadsAs

variable {text text' : List Char} {lines lines' : List Line}

lemma nil : ReadsAs limit [] [] where
  readLines rest := by simp
  return_not_mem := by simp
  head := by simp

lemma append (h : ReadsAs limit text lines) (h' : ReadsAs limit text' lines') :
    ReadsAs limit (text ++ text') (lines ++ lines') where
  readLines rest := by
    rw [List.append_assoc, h.readLines, h'.readLines, Option.map_map]
    simp only [Function.comp_def, List.append_assoc]
  return_not_mem := by
    rw [List.mem_append, not_or]
    exact ⟨h.return_not_mem, h'.return_not_mem⟩
  head := by
    cases text with
    | nil => exact h'.head
    | cons c text => exact h.head

lemma newline : ReadsAs limit ['\n'] [] where
  readLines rest := by
    rw [List.singleton_append, readLines_newline]
    simp
  return_not_mem := by decide
  head := by decide

/-- A line with a key and a value is read back. -/
lemma pair (hlimit : 0 < limit) (key : String) {value : Value} (h : value.Plain) :
    ReadsAs limit (pairText key value) [.pair ⟨[], key⟩ value] where
  readLines := readLines_pairText key h hlimit
  return_not_mem := by
    have hkey := return_not_mem_writeKey key.toList
    have hvalue := return_not_mem_writeInline h
    simp [pairText, hkey, hvalue]
  head := by
    obtain ⟨c, tail, hkey, hc⟩ := exists_writeKey_eq key.toList
    have hmark : c ≠ '\ufeff' := hc.ne (by decide) (by decide)
    simpa [pairText, hkey] using hmark

/-- A section header is read back. -/
lemma header (path : KeyPath) (hlimit : path.parents.length < limit) :
    ReadsAs limit (sectionHeader path.toList) [.itemHeader path] where
  readLines := readLines_sectionHeader path hlimit
  return_not_mem := return_not_mem_sectionHeader path.toList
  head := by rintro ⟨⟩

/-- The lines of a whole text. -/
lemma readLines_eq (h : ReadsAs limit text lines) : Toml.readLines limit text = some lines := by
  have hlines := h.readLines []
  have hend : Toml.readLines limit [] = some [] := by rw [Toml.readLines, dif_pos rfl]
  rw [List.append_nil, hend] at hlines
  simpa using hlines

lemma eq_nil (h : ReadsAs limit [] lines) : lines = [] := by
  have hlines := h.readLines_eq
  rw [Toml.readLines, dif_pos rfl] at hlines
  exact (Option.some.inj hlines).symm

end ReadsAs

/-- Texts are read one after the other as the lines. -/
inductive AllReadAs (limit : ℕ) : List (List Char) → List Line → Prop
  | nil : AllReadAs limit [] []
  | cons {text : List Char} {lines : List Line} {texts : List (List Char)} {more : List Line}
    (head : ReadsAs limit text lines) (tail : AllReadAs limit texts more) :
    AllReadAs limit (text :: texts) (lines ++ more)

namespace AllReadAs

variable {texts texts' : List (List Char)} {lines lines' : List Line}

lemma append (h : AllReadAs limit texts lines) (h' : AllReadAs limit texts' lines') :
    AllReadAs limit (texts ++ texts') (lines ++ lines') := by
  induction h with
  | nil => exact h'
  | cons head _ ih =>
    rw [List.append_assoc]
    exact .cons head ih

/-- Empty lines between texts add nothing. -/
lemma intercalate (h : AllReadAs limit texts lines) :
    ReadsAs limit (['\n'].intercalate texts) lines := by
  induction h with
  | nil => exact ReadsAs.nil
  | @cons text lines texts more head tail ih =>
    by_cases hne : texts = []
    · subst hne
      cases tail
      rw [List.intercalate_singleton, List.append_nil]
      exact head
    · rw [List.intercalate_cons_of_ne_nil hne, List.append_assoc]
      exact head.append (ReadsAs.newline.append ih)

end AllReadAs

/-- The lines of the plain entries are read. -/
lemma readsAs_plainLines (hlimit : 0 < limit) {entries : Table} (h : RegularEntries entries) :
    ReadsAs limit (plainLines entries) (pairLines entries) := by
  induction entries with
  | nil => exact ReadsAs.nil
  | cons entry entries ih =>
    obtain ⟨key, value⟩ := entry
    rw [RegularEntries] at h
    obtain ⟨htable, hvalue, hentries⟩ := h
    rw [plainLines, pairLines, plainEntries]
    by_cases hsections : value.isSections = true
    · rw [if_pos hsections, List.filter_cons_of_neg (by simpa using hsections)]
      exact ih hentries
    · rw [if_neg hsections, List.filter_cons_of_pos (by simpa using hsections), List.map_cons]
      have hplain := plain_of_regular hvalue htable (by simpa using hsections)
      have hpair := ReadsAs.pair hlimit key hplain
      have htext : writeKey key.toList ++ [' ', '=', ' '] ++ writeInline value ++
          '\n' :: plainLines entries = pairText key value ++ plainLines entries := by
        simp [pairText]
      rw [htext]
      exact hpair.append (ih hentries)

mutual

/-- The sections of a table are read. -/
theorem allReadAs_sections (hlimit : 0 < limit) (item : Value) (h : item.Regular) (path : KeyPath)
    (hdepth : path.toList.length + item.depth ≤ limit) :
    AllReadAs limit (item.sections path.toList) (item.sectionLines path) := by
  cases item with
  | table entries =>
    rw [Value.Regular] at h
    rw [Value.depth] at hdepth
    have hparents : path.parents.length < limit := by
      have hlength : path.toList.length = path.parents.length + 1 := by simp [KeyPath.toList]
      omega
    have hheader := ReadsAs.header path hparents
    rw [Value.sections, Value.sectionLines]
    exact .cons (hheader.append (readsAs_plainLines hlimit h.2))
      (allReadAs_entrySections hlimit entries h.2 path.toList hdepth)
  | _ =>
    rw [Value.sections, Value.sectionLines]
    · exact .nil
    all_goals simp

/-- The sections of an array of tables are read back. -/
theorem allReadAs_itemSections (hlimit : 0 < limit) (items : List Value) (h : RegularItems items)
    (path : KeyPath) (hdepth : path.toList.length + itemsDepth items ≤ limit) :
    AllReadAs limit (itemSections path.toList items) (itemLines path items) := by
  cases items with
  | nil =>
    rw [itemSections, itemLines]
    exact .nil
  | cons item items =>
    rw [RegularItems] at h
    rw [itemsDepth] at hdepth
    rw [itemSections, itemLines]
    exact (allReadAs_sections hlimit item h.2.1 path (by omega)).append
      (allReadAs_itemSections hlimit items h.2.2 path (by omega))

/-- The sections of the entries of a table are read. -/
theorem allReadAs_entrySections (hlimit : 0 < limit) (entries : Table)
    (h : RegularEntries entries) (path : List String)
    (hdepth : path.length + entriesDepth entries ≤ limit) :
    AllReadAs limit (entrySections path entries) (entryLines path entries) := by
  cases entries with
  | nil =>
    rw [entrySections, entryLines]
    exact .nil
  | cons entry entries =>
    obtain ⟨key, value⟩ := entry
    rw [RegularEntries] at h
    rw [entriesDepth] at hdepth
    have hmore := allReadAs_entrySections hlimit entries h.2.2 path (by omega)
    cases value with
    | array items =>
      have hitems := h.2.1
      rw [Value.Regular] at hitems
      rw [Value.depth] at hdepth
      have hread := allReadAs_itemSections hlimit items hitems ⟨path, key⟩
        (by simp [KeyPath.toList]; omega)
      cases items with
      -- An empty list is a plain entry and has no sections.
      | nil =>
        rw [entrySections, entryLines, itemLines]
        · exact hmore
        · simp
      | cons item items =>
        rw [entrySections, if_pos (all_isTable_of_regularItems hitems), entryLines]
        exact hread.append hmore
    | _ =>
      rw [entrySections, entryLines]
      · exact hmore
      all_goals simp

end

/-- The lines of a document. -/
def documentLines (document : Table) : List Line :=
  pairLines document ++ entryLines [] document

/-- What is written for a document is read as its lines. -/
theorem readsAs_write (hlimit : 0 < limit) {document : Table} (h : RegularEntries document)
    (hdepth : entriesDepth document ≤ limit) :
    ReadsAs limit (write document).toList (documentLines document) := by
  have hplain := readsAs_plainLines hlimit h
  have hsections := allReadAs_entrySections hlimit document h [] (by simpa using hdepth)
  rw [write, String.toList_ofList]
  apply AllReadAs.intercalate
  -- A document without plain entries does not begin with an empty section.
  cases htop : plainLines document with
  | nil =>
    rw [htop] at hplain
    rw [documentLines, hplain.eq_nil]
    exact hsections
  | cons c lines =>
    rw [htop] at hplain
    exact .cons hplain hsections

/-! ## Line ends and marks -/

/-- A text without carriage returns keeps its line ends. -/
lemma unifyLineEnds_of_not_mem {text : List Char} (h : '\r' ∉ text) :
    unifyLineEnds text = text := by
  induction text with
  | nil => rfl
  | cons c text ih =>
    have hc : c ≠ '\r' := fun heq => h (heq ▸ List.mem_cons_self)
    rw [unifyLineEnds, ih fun hmem => h (List.mem_cons_of_mem c hmem)]
    rintro rest rfl -
    exact hc rfl

/-- A text that does not begin with the mark stays. -/
lemma dropByteOrderMark_of_head {text : List Char} (h : text.head? ≠ some '\ufeff') :
    dropByteOrderMark text = text := by
  rw [dropByteOrderMark]
  rintro rest rfl
  exact h rfl

/-- Main statement: a document is read from the lines that it is made of. -/
theorem readWithin_eq_ofLines? (hlimit : 0 < limit) {document : Table} (h : RegularEntries document)
    (hdepth : entriesDepth document ≤ limit) :
    readWithin limit (write document) = Table.ofLines? (documentLines document) := by
  have hread := readsAs_write hlimit h hdepth
  rw [readWithin, dropByteOrderMark_of_head hread.head,
    unifyLineEnds_of_not_mem hread.return_not_mem, hread.readLines_eq]
  rfl

end BlockLang.Toml
