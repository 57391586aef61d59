import BlockLang.Proofs.Toml.RoundTrip

/-!
# Entries in front of a document

Lines for plain entries are put in front of a document. Main statement: the document is then read as
before, with these entries in front, if it has no others with their keys.
-/

namespace BlockLang.Toml

/-! ## Entries in front of a draft -/

namespace Entries

variable {key : String} {change : Option Node → Option Node} {pre entries entries' : Entries}

/-- A key that is not in front is changed behind. -/
lemma alter_append (h : key ∉ pre.map Prod.fst) (entries : Entries) :
    alter key change (pre ++ entries) = (alter key change entries).map (pre ++ ·) := by
  induction pre with
  | nil => simp
  | cons entry pre ih =>
    obtain ⟨key', node⟩ := entry
    rw [List.map_cons, List.mem_cons, not_or] at h
    rw [List.cons_append, alter, if_neg (Ne.symm h.1), ih h.2, Option.map_map]
    rfl

/-- An entry that is changed or added is there afterwards, and so are those that were there. -/
lemma keys_alter (h : alter key change entries = some entries') :
    key ∈ entries'.map Prod.fst ∧ entries.map Prod.fst ⊆ entries'.map Prod.fst := by
  induction entries generalizing entries' with
  | nil =>
    obtain ⟨node, -, rfl⟩ := Option.map_eq_some_iff.mp h
    simp
  | cons entry entries ih =>
    obtain ⟨key', node⟩ := entry
    rw [alter] at h
    split at h
    · rename_i heq
      obtain ⟨node', -, rfl⟩ := Option.map_eq_some_iff.mp h
      subst heq
      simp
    · obtain ⟨inner, hinner, rfl⟩ := Option.map_eq_some_iff.mp h
      obtain ⟨hkey, hkeys⟩ := ih hinner
      rw [List.map_cons, List.map_cons]
      exact ⟨List.mem_cons_of_mem _ hkey, List.cons_subset_cons _ hkeys⟩

/-- The change is one of an entry at the top. -/
def AltersOne (change : Entries → Option Entries) : Prop :=
  ∃ key change', ∀ entries, change entries = entries.alter key change'

/-- A change further down is one of the entry that leads there. -/
lemma altersOne_descend {dotted : Bool} {change : Origin → Entries → Option Entries}
    {path : List String} (h : path = [] → AltersOne (change .header)) :
    AltersOne fun entries => entries.descend dotted change path .header := by
  cases path with
  | nil => exact h rfl
  | cons key path => exact ⟨key, _, fun _ => rfl⟩

/-- A pair changes one key at the top. -/
lemma altersOne_put (path : KeyPath) (value : Value) :
    AltersOne fun entries => entries.put path value := by
  obtain ⟨parents, name⟩ := path
  refine altersOne_descend fun hparents => ?_
  cases (show parents = [] from hparents)
  exact ⟨name, _, fun entries => if_neg (by simp)⟩

/-- A table header changes one key at the top. -/
lemma altersOne_openTable (path : KeyPath) : AltersOne fun entries => entries.openTable path :=
  altersOne_descend fun _ => ⟨path.name, _, fun _ => rfl⟩

/-- The header of an item changes one key at the top. -/
lemma altersOne_openItem (path : KeyPath) : AltersOne fun entries => entries.openItem path :=
  altersOne_descend fun _ => ⟨path.name, _, fun _ => rfl⟩

end Entries

namespace Draft

/-- A line of a document changes an entry at the top. -/
lemma exists_add_eq (path : List String) (line : Line) :
    ∃ change path', Entries.AltersOne change ∧
      ∀ entries, Draft.add ⟨entries, path⟩ line =
        (change entries).map fun entries => ⟨entries, path'⟩ := by
  cases line with
  | pair name value =>
    let put (_ : Origin) (entries : Entries) := entries.put name value
    have hput : Entries.AltersOne fun entries => entries.descend false put path .header :=
      Entries.altersOne_descend fun _ => Entries.altersOne_put name value
    refine ⟨_, path, hput, fun entries => ?_⟩
    rw [Option.map_eq_bind]
    rfl
  | header name =>
    refine ⟨_, name.toList, Entries.altersOne_openTable name, fun entries => ?_⟩
    rw [Option.map_eq_bind]
    rfl
  | itemHeader name =>
    refine ⟨_, name.toList, Entries.altersOne_openItem name, fun entries => ?_⟩
    rw [Option.map_eq_bind]
    rfl

variable {draft draft' : Draft} {line : Line}

/-- What was there stays, and entries with other keys can stand in front. -/
lemma add_append (h : draft.add line = some draft') (pre : Entries)
    (hpre : ∀ key ∈ pre.map Prod.fst, key ∉ draft'.entries.map Prod.fst) :
    Draft.add ⟨pre ++ draft.entries, draft.path⟩ line =
      some ⟨pre ++ draft'.entries, draft'.path⟩ := by
  obtain ⟨change, path', ⟨key, change', halter⟩, hadd⟩ := exists_add_eq draft.path line
  rw [hadd, halter] at h
  obtain ⟨entries', hentries, rfl⟩ := Option.map_eq_some_iff.mp h
  have hkey : key ∉ pre.map Prod.fst := fun hmem =>
    hpre key hmem (Entries.keys_alter hentries).1
  rw [hadd, halter, Entries.alter_append hkey, hentries]
  rfl

/-- A line removes no key. -/
lemma keys_add (h : draft.add line = some draft') :
    draft.entries.map Prod.fst ⊆ draft'.entries.map Prod.fst := by
  obtain ⟨change, path', ⟨key, change', halter⟩, hadd⟩ := exists_add_eq draft.path line
  rw [hadd, halter] at h
  obtain ⟨entries', hentries, rfl⟩ := Option.map_eq_some_iff.mp h
  exact (Entries.keys_alter hentries).2

/-- A document removes no key that was there before. -/
lemma keys_foldlM_add {lines : List Line} (h : lines.foldlM Draft.add draft = some draft') :
    draft.entries.map Prod.fst ⊆ draft'.entries.map Prod.fst := by
  induction lines generalizing draft with
  | nil =>
    cases h
    exact List.Subset.refl _
  | cons line lines ih =>
    rw [List.foldlM_cons] at h
    obtain ⟨next, hnext, hlines⟩ := Option.bind_eq_some_iff.mp h
    exact List.Subset.trans (keys_add hnext) (ih hlines)

/-- The lines of a document make the same of it if there are entries with other keys in front. -/
lemma foldlM_add_append {lines : List Line} (h : lines.foldlM Draft.add draft = some draft')
    (pre : Entries) (hpre : ∀ key ∈ pre.map Prod.fst, key ∉ draft'.entries.map Prod.fst) :
    lines.foldlM Draft.add ⟨pre ++ draft.entries, draft.path⟩ =
      some ⟨pre ++ draft'.entries, draft'.path⟩ := by
  induction lines generalizing draft with
  | nil =>
    cases h
    rfl
  | cons line lines ih =>
    rw [List.foldlM_cons] at h
    obtain ⟨next, hnext, hlines⟩ := Option.bind_eq_some_iff.mp h
    -- A key that the line adds is there in the end, so none of those in front is like it.
    have hkeys := keys_foldlM_add hlines
    have hadd := add_append hnext pre fun key hkey hmem => hpre key hkey (hkeys hmem)
    rw [List.foldlM_cons, hadd]
    exact ih hlines

end Draft

/-! ## Entries in front of a text -/

/-- The text of a document with lines for the plain entries of a table in front of its own, but
behind the mark that can stand at its start. -/
def prepend (entries : Table) (document : String) : String :=
  .ofList <| match document.toList with
    | '\ufeff' :: text => '\ufeff' :: (plainLines entries ++ text)
    | text => plainLines entries ++ text

variable {limit : ℕ} {entries table : Table} {document : String}

lemma dropByteOrderMark_prepend (h : (plainLines entries).head? ≠ some '\ufeff') :
    dropByteOrderMark (prepend entries document).toList =
      plainLines entries ++ dropByteOrderMark document.toList := by
  rw [prepend, String.toList_ofList]
  split
  · rename_i text htext
    rw [htext]
    rfl
  · rename_i hmark
    have hhead : document.toList.head? ≠ some '\ufeff' := by
      intro hhead
      obtain ⟨text, htext⟩ := List.head?_eq_some_iff.mp hhead
      exact hmark text htext
    have hwhole : (plainLines entries ++ document.toList).head? ≠ some '\ufeff' := by
      cases hlines : plainLines entries with
      | nil => exact hhead
      | cons c lines =>
        rw [hlines] at h
        exact h
    rw [dropByteOrderMark_of_head hhead, dropByteOrderMark_of_head hwhole]

lemma unifyLineEnds_append {text : List Char} (h : '\r' ∉ text) (rest : List Char) :
    unifyLineEnds (text ++ rest) = text ++ unifyLineEnds rest := by
  induction text with
  | nil => rfl
  | cons c text ih =>
    have hc : c ≠ '\r' := fun heq => h (heq ▸ List.mem_cons_self)
    rw [List.cons_append, unifyLineEnds, ih fun hmem => h (List.mem_cons_of_mem c hmem)]
    · rfl
    · rintro rest rfl -
      exact hc rfl

lemma map_fst_freeze (entries : Entries) :
    (Entries.freeze entries).map Prod.fst = entries.map Prod.fst := by
  induction entries with
  | nil => rfl
  | cons entry entries ih =>
    obtain ⟨key, node⟩ := entry
    rw [Entries.freeze, List.map_cons, ih, List.map_cons]

/-- A document with lines in front is read as before, with their entries in front. -/
theorem readWithin_prepend (hlimit : 0 < limit) (h : RegularEntries entries)
    (hkeys : ((plainEntries entries).map Prod.fst).Nodup)
    (hread : readWithin limit document = some table)
    (hother : ∀ key ∈ (plainEntries entries).map Prod.fst, key ∉ table.map Prod.fst) :
    readWithin limit (prepend entries document) = some (plainEntries entries ++ table) := by
  have hlines := readsAs_plainLines hlimit h
  obtain ⟨lines, hrest, htable⟩ := Option.bind_eq_some_iff.mp hread
  obtain ⟨draft, hdraft, hfreeze⟩ := Option.bind_eq_some_iff.mp htable
  cases Option.some.inj hfreeze
  have hnodes : (plainNodes entries).map Prod.fst = (plainEntries entries).map Prod.fst := by
    rw [← map_fst_freeze, freeze_plainNodes]
  rw [← hnodes] at hkeys hother
  rw [map_fst_freeze] at hother
  -- The lines in front fill an empty draft, and the others are added to what they have made.
  have hfirst : (pairLines entries).foldlM Draft.add {} = some ⟨plainNodes entries, []⟩ :=
    foldlM_pairLines IsPlace.root entries hkeys
  have hmore : lines.foldlM Draft.add ⟨plainNodes entries, []⟩ =
      some ⟨plainNodes entries ++ draft.entries, draft.path⟩ := by
    have hadded := Draft.foldlM_add_append hdraft (plainNodes entries) hother
    rwa [List.append_nil] at hadded
  have hall : (pairLines entries ++ lines).foldlM Draft.add {} =
      some ⟨plainNodes entries ++ draft.entries, draft.path⟩ := by
    rw [List.foldlM_append, hfirst]
    exact hmore
  rw [readWithin, dropByteOrderMark_prepend hlines.head, unifyLineEnds_append hlines.return_not_mem,
    hlines.readLines, hrest]
  show Table.ofLines? (pairLines entries ++ lines) = _
  rw [Table.ofLines?, hall]
  show some (Entries.freeze (plainNodes entries ++ draft.entries)) = _
  rw [freeze_append, freeze_plainNodes]

end BlockLang.Toml
