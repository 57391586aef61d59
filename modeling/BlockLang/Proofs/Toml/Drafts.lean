import BlockLang.Proofs.Toml.Documents
import Mathlib.Data.List.Nodup

/-!
# Tables from lines

The lines of a regular document are added to a draft one after the other. Main statement: the lines
of a table fill the table that its header opens, and nothing else in the document changes.
-/

namespace BlockLang.Toml

/-! ## Places in a document -/

namespace Entries

variable {key : String} {node : Node} {entries : Entries} {change : Option Node → Option Node}

/-- A key that is missing is added at the end. -/
lemma alter_of_not_mem (h : key ∉ entries.map Prod.fst) :
    entries.alter key change = (change none).map fun node => entries ++ [(key, node)] := by
  induction entries with
  | nil => rfl
  | cons entry entries ih =>
    obtain ⟨key', node'⟩ := entry
    rw [List.map_cons, List.mem_cons, not_or] at h
    rw [alter, if_neg (Ne.symm h.1), ih h.2, Option.map_map]
    rfl

/-- A key that is found at the end is changed there. -/
lemma alter_append_singleton (h : key ∉ entries.map Prod.fst) :
    alter key change (entries ++ [(key, node)]) =
      (change (some node)).map fun node => entries ++ [(key, node)] := by
  induction entries with
  | nil =>
    rw [List.nil_append, alter, if_pos rfl]
    rfl
  | cons entry entries ih =>
    obtain ⟨key', node'⟩ := entry
    rw [List.map_cons, List.mem_cons, not_or] at h
    rw [List.cons_append, alter, if_neg (Ne.symm h.1), ih h.2, Option.map_map]
    rfl

/-- A path is gone down in two steps. -/
lemma descend_append {dotted : Bool} {change : Origin → Entries → Option Entries}
    (path path' : List String) (origin : Origin) (entries : Entries) :
    descend dotted change (path ++ path') origin entries =
      descend dotted (descend dotted change path') path origin entries := by
  induction path generalizing origin entries with
  | nil => rfl
  | cons key path ih =>
    rw [List.cons_append, descend, descend]
    simp only [ih]

end Entries

/-- The table at a path through the latest tables of lists: a change to it changes the document in
the way that `fill` says. -/
structure IsPlace (path : List String) (fill : Entries → Entries) : Prop where
  descend (inner : Entries) (change : Entries → Option Entries) (origin : Origin) :
    (fill inner).descend false (fun _ => change) path origin = (change inner).map fill

namespace IsPlace

variable {path : List String} {fill : Entries → Entries} {inner : Entries} {key : String}

/-- The document itself. -/
lemma root : IsPlace [] id where
  descend inner change _ := by
    rw [Option.map_id]
    rfl

/-- The latest table in a list that is the last entry. -/
lemma last (h : IsPlace path fill) (hkey : key ∉ inner.map Prod.fst) (earlier : List Entries) :
    IsPlace (path ++ [key]) fun latest => fill (inner ++ [(key, .tables (latest :: earlier))]) where
  descend latest change origin := by
    have hstep : Entries.descend false (fun _ => change) [key] =
        fun _ => Entries.descend false (fun _ => change) [key] .header := rfl
    rw [Entries.descend_append, hstep, h.descend, Entries.descend,
      Entries.alter_append_singleton hkey]
    simp only [Entries.descend, Option.map_map, Function.comp_def]

/-- An entry is added to the table of the last header. -/
lemma add_pair (h : IsPlace path fill) (hkey : key ∉ inner.map Prod.fst) (value : Value) :
    Draft.add ⟨fill inner, path⟩ (.pair ⟨[], key⟩ value) =
      some ⟨fill (inner ++ [(key, .value value)]), path⟩ := by
  have hput : inner.put ⟨[], key⟩ value = some (inner ++ [(key, .value value)]) := by
    show (if (Origin.header = .dotted) = (([] : List String).isEmpty = true) then none
      else Entries.alter key _ inner) = _
    rw [if_neg (by decide), Entries.alter_of_not_mem hkey]
    rfl
  have hplace := h.descend inner (fun inner => inner.put ⟨[], key⟩ value) .header
  rw [hput] at hplace
  rw [Draft.add]
  simp only [hplace]
  rfl

/-- At a place, an item is opened in the entries there. -/
lemma openItem (h : IsPlace path fill) :
    (fill inner).openItem ⟨path, key⟩ =
      (inner.alter key fun
        | none => some (.tables [[]])
        | some (.tables items) => some (.tables ([] :: items))
        | some _ => none).map fill :=
  h.descend inner _ .header

/-- The first table of a list is added to the table at the path of the list. -/
lemma add_firstHeader (h : IsPlace path fill) (hkey : key ∉ inner.map Prod.fst)
    (path' : List String) :
    Draft.add ⟨fill inner, path'⟩ (.itemHeader ⟨path, key⟩) =
      some ⟨fill (inner ++ [(key, .tables [[]])]), path ++ [key]⟩ := by
  rw [Draft.add]
  simp only [h.openItem, Entries.alter_of_not_mem hkey]
  rfl

/-- A further table is added to a list. -/
lemma add_nextHeader (h : IsPlace path fill) (hkey : key ∉ inner.map Prod.fst)
    (earlier : List Entries) (path' : List String) :
    Draft.add ⟨fill (inner ++ [(key, .tables earlier)]), path'⟩ (.itemHeader ⟨path, key⟩) =
      some ⟨fill (inner ++ [(key, .tables ([] :: earlier))]), path ++ [key]⟩ := by
  rw [Draft.add]
  simp only [h.openItem, Entries.alter_append_singleton hkey]
  rfl

end IsPlace

/-! ## Nodes -/

/-- The nodes of the plain entries of a table. -/
def plainNodes (entries : Table) : Entries :=
  (plainEntries entries).map fun entry => (entry.1, .value entry.2)

mutual

/-- The entries of a table when all its lines have been added. -/
def Value.nodes : Value → Entries
  | .table entries => plainNodes entries ++ sectionNodes entries
  | _ => []

def itemNodes : List Value → List Entries
  | [] => []
  | item :: items => item.nodes :: itemNodes items

/-- The nodes of the lists of tables among the entries. -/
def sectionNodes : Table → Entries
  | [] => []
  | (key, .array (item :: items)) :: entries =>
    (key, .tables ((itemNodes items).reverse ++ [item.nodes])) :: sectionNodes entries
  | _ :: entries => sectionNodes entries

end

/-- The nodes of a table. -/
def tableNodes (entries : Table) : Entries :=
  plainNodes entries ++ sectionNodes entries

/-- What is not a list of tables is a plain entry. -/
lemma isSections_iff {value : Value} (h : value.Regular) :
    value.isSections = true ↔ ∃ item items, value = .array (item :: items) := by
  constructor
  · intro hsections
    cases value with
    | array items =>
      cases items with
      | nil => cases hsections
      | cons item items => exact ⟨item, items, rfl⟩
    | _ => cases hsections
  · rintro ⟨item, items, rfl⟩
    rw [Value.Regular] at h
    exact all_isTable_of_regularItems h

/-- The keys of the nodes are those of the entries. -/
lemma perm_keys_tableNodes {entries : Table} (h : RegularEntries entries) :
    ((tableNodes entries).map Prod.fst).Perm (entries.map Prod.fst) := by
  induction entries with
  | nil => rfl
  | cons entry entries ih =>
    obtain ⟨key, value⟩ := entry
    rw [RegularEntries] at h
    have hrest := ih h.2.2
    rw [tableNodes, plainNodes, plainEntries] at hrest ⊢
    by_cases hsections : value.isSections = true
    · obtain ⟨item, items, rfl⟩ := (isSections_iff h.2.1).mp hsections
      rw [List.filter_cons_of_neg (by simpa using hsections), sectionNodes]
      rw [List.map_append, List.map_cons] at *
      exact List.perm_middle.trans (hrest.cons key)
    · rw [List.filter_cons_of_pos (by simpa using hsections), sectionNodes]
      · exact hrest.cons key
      · rintro key' item items heq
        cases heq
        exact hsections ((isSections_iff h.2.1).mpr ⟨item, items, rfl⟩)

/-! ## Adding lines -/

/-- Adding the lines changes the document in this way, wherever the last header was. -/
def Fills (lines : List Line) (entries entries' : Entries) : Prop :=
  ∀ path, ∃ path', lines.foldlM Draft.add ⟨entries, path⟩ = some ⟨entries', path'⟩

/-- Lines fill a draft one after the other. -/
lemma Fills.append {lines lines' : List Line} {entries entries' entries'' : Entries}
    (h : Fills lines entries entries') (h' : Fills lines' entries' entries'') :
    Fills (lines ++ lines') entries entries'' := by
  intro path
  obtain ⟨path', hfirst⟩ := h path
  obtain ⟨path'', hsecond⟩ := h' path'
  refine ⟨path'', ?_⟩
  rw [List.foldlM_append, hfirst]
  exact hsecond

lemma not_mem_of_nodup {inner rest : Entries} {key : String} {node : Node}
    (h : ((inner ++ (key, node) :: rest).map Prod.fst).Nodup) : key ∉ inner.map Prod.fst := by
  rw [List.map_append, List.map_cons] at h
  exact (List.nodup_cons.mp (List.nodup_middle.mp h)).1 ∘ List.mem_append_left _

variable {path : List String} {fill : Entries → Entries}

/-- The lines of plain entries are added to the table of the last header. -/
lemma foldlM_pairLines (hplace : IsPlace path fill) (entries : Table)
    (hkeys : ((plainNodes entries).map Prod.fst).Nodup) :
    (pairLines entries).foldlM Draft.add ⟨fill [], path⟩ =
      some ⟨fill (plainNodes entries), path⟩ := by
  rw [pairLines, plainNodes] at *
  generalize plainEntries entries = plain at *
  -- The induction is over the entries that are left; those that were added stay in front.
  have hmore (inner : Entries)
      (h : ((inner ++ plain.map fun entry => (entry.1, Node.value entry.2)).map Prod.fst).Nodup) :
      (plain.map fun entry => Line.pair ⟨[], entry.1⟩ entry.2).foldlM Draft.add ⟨fill inner, path⟩ =
        some ⟨fill (inner ++ plain.map fun entry => (entry.1, Node.value entry.2)), path⟩ := by
    clear hkeys
    induction plain generalizing inner with
    | nil => simp
    | cons entry plain ih =>
      obtain ⟨key, value⟩ := entry
      rw [List.map_cons] at h
      have hkey := not_mem_of_nodup h
      rw [List.append_cons] at h
      rw [List.map_cons, List.map_cons, List.append_cons, List.foldlM_cons, hplace.add_pair hkey]
      exact ih _ h
  exact hmore [] hkeys

mutual

/-- The lines of a table fill the table that its header opens. -/
theorem fills_sectionLines (item : Value) (htable : item.isTable) (h : item.Regular)
    {path : List String} {fill : Entries → Entries} (hplace : IsPlace path fill) {key : String}
    {inner : Entries} (hkey : key ∉ inner.map Prod.fst) (earlier : List Entries) {start : Entries}
    (hheader : ∀ path', Draft.add ⟨start, path'⟩ (.itemHeader ⟨path, key⟩) =
      some ⟨fill (inner ++ [(key, .tables ([] :: earlier))]), path ++ [key]⟩) :
    Fills (item.sectionLines ⟨path, key⟩) start
      (fill (inner ++ [(key, .tables (item.nodes :: earlier))])) := by
  cases item with
  | table entries =>
    rw [Value.Regular] at h
    obtain ⟨hnodup, hentries⟩ := h
    have hkeys := (perm_keys_tableNodes hentries).nodup_iff.mpr hnodup
    rw [tableNodes] at hkeys
    -- The header opens an empty table, which gets its plain entries first and then its lists.
    have hinner := hplace.last hkey earlier
    have hplain : ((plainNodes entries).map Prod.fst).Nodup := by
      rw [List.map_append] at hkeys
      exact List.Nodup.of_append_left hkeys
    intro path'
    obtain ⟨path'', hfill⟩ := fills_entryLines entries hentries hinner hkeys (path ++ [key])
    refine ⟨path'', ?_⟩
    rw [Value.sectionLines, List.foldlM_cons, hheader]
    show List.foldlM Draft.add _ _ = _
    rw [List.foldlM_append, foldlM_pairLines hinner entries hplain, Value.nodes]
    exact hfill
  | _ => cases htable

/-- The lines of an array of tables add its items. -/
theorem fills_itemLines (items : List Value) (h : RegularItems items) {path : List String}
    {fill : Entries → Entries} (hplace : IsPlace path fill) {key : String} {inner : Entries}
    (hkey : key ∉ inner.map Prod.fst) (earlier : List Entries) :
    Fills (itemLines ⟨path, key⟩ items) (fill (inner ++ [(key, .tables earlier)]))
      (fill (inner ++ [(key, .tables ((itemNodes items).reverse ++ earlier))])) := by
  cases items with
  | nil =>
    intro path'
    rw [itemLines, itemNodes]
    exact ⟨path', rfl⟩
  | cons item items =>
    rw [RegularItems] at h
    have hfirst := fills_sectionLines item h.1 h.2.1 hplace hkey earlier
      (hplace.add_nextHeader hkey earlier)
    have hmore := fills_itemLines items h.2.2 hplace hkey (item.nodes :: earlier)
    rw [itemLines, itemNodes, List.reverse_cons, List.append_assoc]
    exact hfirst.append hmore

/-- The lines of the lists of tables in a table are added to it, one list after the other. -/
theorem fills_entryLines (entries : Table) (h : RegularEntries entries) {path : List String}
    {fill : Entries → Entries} (hplace : IsPlace path fill) {inner : Entries}
    (hkeys : ((inner ++ sectionNodes entries).map Prod.fst).Nodup) :
    Fills (entryLines path entries) (fill inner) (fill (inner ++ sectionNodes entries)) := by
  cases entries with
  | nil =>
    intro path'
    rw [entryLines, sectionNodes, List.append_nil]
    exact ⟨path', rfl⟩
  | cons entry entries =>
    obtain ⟨key, value⟩ := entry
    rw [RegularEntries] at h
    cases value with
    | array items =>
      cases items with
      | nil =>
        rw [entryLines, itemLines, sectionNodes] at *
        · exact fills_entryLines entries h.2.2 hplace hkeys
        all_goals simp
      | cons item items =>
        have hitems := h.2.1
        rw [Value.Regular, RegularItems] at hitems
        rw [sectionNodes] at hkeys ⊢
        have hkey := not_mem_of_nodup hkeys
        rw [List.append_cons] at hkeys ⊢
        -- The first item opens the list, and the others are put in front of it there.
        have hfirst := fills_sectionLines item hitems.1 hitems.2.1 hplace hkey []
          (hplace.add_firstHeader hkey)
        have hmore := fills_itemLines items hitems.2.2 hplace hkey [item.nodes]
        rw [entryLines, itemLines]
        exact (hfirst.append hmore).append (fills_entryLines entries h.2.2 hplace hkeys)
    | _ =>
      rw [entryLines, sectionNodes] at *
      · exact fills_entryLines entries h.2.2 hplace hkeys
      all_goals simp

end

end BlockLang.Toml
