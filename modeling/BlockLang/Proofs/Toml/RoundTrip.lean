import BlockLang.Proofs.Toml.Drafts

/-!
# Documents there and back

Main statement: the document that is written is read back, but for the order of entries. In each
table the plain entries come first, and every entry is found as before.
-/

namespace BlockLang.Toml

/-! ## Arranged values -/

mutual

/-- The value with the plain entries of each table in front of its lists of tables. -/
def Value.arranged : Value → Value
  | .array items => .array (arrangedItems items)
  | .table entries => .table (plainEntries entries ++ arrangedSections entries)
  | value => value

def arrangedItems : List Value → List Value
  | [] => []
  | item :: items => item.arranged :: arrangedItems items

/-- The lists of tables among the entries. -/
def arrangedSections : Table → Table
  | [] => []
  | (key, .array (item :: items)) :: entries =>
    (key, .array (item.arranged :: arrangedItems items)) :: arrangedSections entries
  | _ :: entries => arrangedSections entries

end

/-- A plain value has nothing to arrange. -/
lemma Value.Plain.arranged_eq {value : Value} (h : value.Plain) : value.arranged = value := by
  cases h with
  | nil => rw [Value.arranged, arrangedItems]
  | _ =>
    rw [Value.arranged]
    all_goals simp

/-- The entries of a table with the plain ones first. -/
def arrangedEntries (entries : Table) : Table :=
  plainEntries entries ++ arrangedSections entries

/-! ## Finished tables -/

lemma freeze_append (entries entries' : Entries) :
    Entries.freeze (entries ++ entries') = Entries.freeze entries ++ Entries.freeze entries' := by
  induction entries with
  | nil => rfl
  | cons entry entries ih =>
    obtain ⟨key, node⟩ := entry
    rw [List.cons_append, Entries.freeze, ih, Entries.freeze]
    rfl

lemma freeze_plainNodes (entries : Table) :
    Entries.freeze (plainNodes entries) = plainEntries entries := by
  rw [plainNodes]
  induction plainEntries entries with
  | nil => rfl
  | cons entry entries ih =>
    rw [List.map_cons, Entries.freeze, ih, Node.freeze]

lemma freezeAll_eq_map (items : List Entries) :
    Entries.freezeAll items = items.map fun entries => .table (Entries.freeze entries) := by
  induction items with
  | nil => rfl
  | cons entries items ih => rw [Entries.freezeAll, ih, List.map_cons]

mutual

/-- A table that is frozen is the table arranged. -/
lemma freeze_nodes (item : Value) (htable : item.isTable) (h : item.Regular) :
    .table (Entries.freeze item.nodes) = item.arranged := by
  cases item with
  | table entries =>
    rw [Value.Regular] at h
    rw [Value.nodes, Value.arranged, freeze_append, freeze_plainNodes,
      freeze_sectionNodes entries h.2]
  | _ => cases htable

/-- The items that are frozen are the items arranged. -/
lemma freezeAll_itemNodes (items : List Value) (h : RegularItems items) :
    Entries.freezeAll (itemNodes items) = arrangedItems items := by
  cases items with
  | nil =>
    rw [itemNodes, arrangedItems]
    rfl
  | cons item items =>
    rw [RegularItems] at h
    rw [itemNodes, Entries.freezeAll, freeze_nodes item h.1 h.2.1,
      freezeAll_itemNodes items h.2.2, arrangedItems]

/-- The sections that are frozen are the sections arranged. -/
lemma freeze_sectionNodes (entries : Table) (h : RegularEntries entries) :
    Entries.freeze (sectionNodes entries) = arrangedSections entries := by
  cases entries with
  | nil =>
    rw [sectionNodes, arrangedSections]
    rfl
  | cons entry entries =>
    obtain ⟨key, value⟩ := entry
    rw [RegularEntries] at h
    have hmore := freeze_sectionNodes entries h.2.2
    cases value with
    | array items =>
      cases items with
      | nil =>
        rw [sectionNodes, arrangedSections]
        · exact hmore
        all_goals simp
      | cons item items =>
        have hitems := h.2.1
        rw [Value.Regular, RegularItems] at hitems
        -- The latest table of a list is in front.
        have hreverse : (itemNodes items).reverse ++ [item.nodes] =
            (item.nodes :: itemNodes items).reverse := List.reverse_cons.symm
        rw [sectionNodes, Entries.freeze, Node.freeze, hmore, hreverse, freezeAll_eq_map,
          List.map_reverse, List.reverse_reverse, ← freezeAll_eq_map, Entries.freezeAll,
          freeze_nodes item hitems.1 hitems.2.1, freezeAll_itemNodes items hitems.2.2,
          arrangedSections]
    | _ =>
      rw [sectionNodes, arrangedSections]
      · exact hmore
      all_goals simp

end

/-- The lines of a document make up the document again. -/
theorem ofLines?_documentLines {document : Table} (h : (Value.table document).Regular) :
    Table.ofLines? (documentLines document) = some (arrangedEntries document) := by
  rw [Value.Regular] at h
  obtain ⟨hnodup, hentries⟩ := h
  have hkeys := (perm_keys_tableNodes hentries).nodup_iff.mpr hnodup
  have hplain : ((plainNodes document).map Prod.fst).Nodup := by
    rw [tableNodes, List.map_append] at hkeys
    exact List.Nodup.of_append_left hkeys
  obtain ⟨path, hfill⟩ := fills_entryLines document hentries IsPlace.root hkeys []
  have hlines : (documentLines document).foldlM Draft.add {} =
      some ⟨tableNodes document, path⟩ := by
    rw [documentLines, List.foldlM_append]
    show ((pairLines document).foldlM Draft.add ⟨id [], []⟩).bind _ = _
    rw [foldlM_pairLines IsPlace.root document hplain]
    exact hfill
  rw [Table.ofLines?, hlines]
  show some (Entries.freeze (tableNodes document)) = _
  rw [tableNodes, freeze_append, freeze_plainNodes, freeze_sectionNodes document hentries]
  rfl

/-- Main statement: a document is read back from what is written for it. -/
theorem readWithin_write {limit : ℕ} (hlimit : 0 < limit) {document : Table}
    (h : (Value.table document).Regular) (hdepth : (Value.table document).depth ≤ limit) :
    readWithin limit (write document) = some (arrangedEntries document) := by
  have hentries : RegularEntries document := by
    rw [Value.Regular] at h
    exact h.2
  rw [Value.depth] at hdepth
  rw [readWithin_eq_ofLines? hlimit hentries hdepth, ofLines?_documentLines h]

/-! ## Looking up entries -/

lemma lookup_of_not_mem {entries : Table} {key : String} (h : key ∉ entries.map Prod.fst) :
    entries.lookup key = none := by
  rw [List.lookup_eq_none_iff]
  intro entry hentry
  have hne : key ≠ entry.1 := fun heq => h (heq ▸ List.mem_map_of_mem hentry)
  simpa using hne

/-- An entry is found wherever it stands. -/
theorem lookup_arrangedEntries {entries : Table} (h : (Value.table entries).Regular)
    (key : String) :
    (arrangedEntries entries).lookup key = (entries.lookup key).map Value.arranged := by
  rw [Value.Regular] at h
  obtain ⟨hnodup, hentries⟩ := h
  induction entries with
  | nil =>
    rw [arrangedEntries, arrangedSections]
    rfl
  | cons entry entries ih =>
    obtain ⟨key', value⟩ := entry
    rw [RegularEntries] at hentries
    rw [List.map_cons, List.nodup_cons] at hnodup
    have hmore := ih hnodup.2 hentries.2.2
    rw [arrangedEntries, plainEntries] at hmore ⊢
    by_cases hsections : value.isSections = true
    · obtain ⟨item, items, rfl⟩ := (isSections_iff hentries.2.1).mp hsections
      rw [List.filter_cons_of_neg (by simpa using hsections), arrangedSections,
        List.lookup_append, List.lookup_cons, List.lookup_cons]
      rw [List.lookup_append] at hmore
      by_cases hkey : key = key'
      · subst hkey
        -- No plain entry hides the list, since the keys differ.
        have hplain : key ∉ (entries.filter fun entry => !entry.2.isSections).map Prod.fst := by
          intro hmem
          exact hnodup.1 ((List.filter_sublist.map Prod.fst).subset hmem)
        simp only [lookup_of_not_mem hplain, beq_self_eq_true, Option.none_or, Option.map_some,
          Value.arranged, arrangedItems]
      · rw [beq_false_of_ne hkey]
        exact hmore
    · have hplain := plain_of_regular hentries.2.1 hentries.1 (by simpa using hsections)
      rw [List.filter_cons_of_pos (by simpa using hsections), arrangedSections, List.cons_append,
        List.lookup_cons, List.lookup_cons, hmore]
      · cases key == key' with
        | true => exact congrArg some hplain.arranged_eq.symm
        | false => rfl
      · rintro _ item items heq
        cases heq
        cases hplain

end BlockLang.Toml
