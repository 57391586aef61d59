import BlockLang.Proofs.Program.Outlines
import BlockLang.Proofs.Program.Session

/-!
# Splices

Main statement: in a session, a block that is put into a program comes between two neighbours of
one list, everything else stays as it was, and to take the block out again gives the program from
before. At the end of a list there is always room for it.
-/

namespace BlockLang

lemma Block.families_subset_insertIdx {bs : List Block} {index : Nat} (h : index ≤ bs.length)
    (b : Block) : families bs ⊆ families (bs.insertIdx index b) := by
  intro c hc
  rw [families_eq_flatMap, List.mem_flatMap] at hc ⊢
  obtain ⟨d, hd, hc⟩ := hc
  exact ⟨d, (List.mem_insertIdx h).mpr (.inr hd), hc⟩

namespace Program

variable {p q : Program} {b : Block} {container : Container} {id : BlockId} {part : Block.Part}
  {list : Place (List Block) Program} {index : Nat}

/-! ## Lists in their places -/

/-- A list that was put into a container is found there, and the container around it is the same. -/
lemma list?_put (h : p.list? id part = .ok list) (bs : List Block) :
    (list.put bs).list? id part = .ok ⟨bs, list.put⟩ := by
  obtain ⟨place, cs, hplace, hcs, rfl⟩ := exists_place?_of_list? h
  have hid : (place.content.setPart part bs).id = id := by
    rw [Block.id, Block.tag_setPart]
    exact id_of_place? hplace
  have hagain := place?_put hplace hid
  have hpart := Block.part?_setPart hcs bs
  have hkind : (place.content.setPart part bs).compoundKind?.isNone = false := by
    rw [← Option.not_isSome, Block.isSome_compoundKind?_of_part? hpart, Bool.not_true]
  show (place.put (place.content.setPart part bs)).list? id part = _
  unfold list?
  simp only [hagain, hkind, hpart, Block.setPart_setPart]
  rfl

/-- To put a list at its place is to set a part of its holder. -/
lemma put_list_eq_modify (h : p.ids.Nodup) (hlist : p.list? id part = .ok list) (bs : List Block) :
    list.put bs = p.modify id (Block.setPart part bs) := by
  obtain ⟨place, cs, hplace, -, rfl⟩ := exists_place?_of_list? hlist
  exact put_eq_modify h hplace (Block.setPart part bs)

/-! ## What is put in -/

/-- None of the blocks in the given one is found in the program. -/
def Admits (p : Program) (b : Block) : Prop :=
  (b.family.find? fun inner => (p.find? inner.id).isSome) = none

/-- A program takes a block that shares no identifier with it. -/
lemma admits_of_disjoint (h : b.ids.Disjoint p.ids) : p.Admits b := by
  rw [Admits, List.find?_eq_none]
  intro c hc
  rw [find?_eq_none_iff.mpr (h (List.mem_map_of_mem hc))]
  exact Bool.false_ne_true

/-- A successful insertion between the slots. -/
lemma of_insert_program (h : p.insert .program index b = (.ok id, q)) :
    id = b.id ∧ index ≤ p.slots.length ∧ q = ⟨p.slots.insertIdx index (some b)⟩ := by
  unfold insert at h
  split at h
  · cases h
  · simp only at h
    split at h
    · cases h
    · rename_i hindex
      split at h
      · cases h
      · cases h
        exact ⟨rfl, Nat.le_of_not_lt hindex, rfl⟩

/-- A successful insertion into a part. -/
lemma of_insert_part {holder : BlockId} (h : p.insert (.part holder part) index b = (.ok id, q)) :
    id = b.id ∧ ∃ list, p.list? holder part = .ok list ∧ index ≤ list.content.length ∧
      q = list.put (list.content.insertIdx index b) := by
  unfold insert at h
  split at h
  · cases h
  · simp only at h
    split at h
    · cases h
    · rename_i list hlist
      split at h
      · cases h
      · rename_i hindex
        cases h
        exact ⟨rfl, list, hlist, Nat.le_of_not_lt hindex, rfl⟩

/-- A block that is located and not locked is taken out where it is. -/
lemma remove_eq_removeAt (h : p.ids.Nodup) {l : Location} (hat : p.at? l = some b)
    (hlocked : b.locked = false) : p.remove b.id = p.removeAt l b.id := by
  have hlocate := (locate?_eq_some_iff h).mpr ⟨b, hat, rfl⟩
  have hfind := (find?_eq_some_iff h).mpr ⟨mem_family_of_at? hat, rfl⟩
  simp [remove, removeChild, hlocate, hfind, hlocked]

/-! ## Splices -/

/-- The second program is the first with the block put in before what was at the index. -/
structure Spliced (p : Program) (container : Container) (index : Nat) (b : Block)
    (q : Program) : Prop where
  /-- The list has the block at the index, between what was before and after it. -/
  row : ∃ row, p.row? container = some row ∧ index ≤ row.length ∧
    q.row? container = some (row.insertIdx index (some b))
  /-- Each other list is one of the program or one in the block, with the same blocks in it. -/
  outline?_eq : ∀ other, other ≠ container →
    q.outline? other = (p.outline? other).or (outline? ⟨[some b]⟩ other)
  locate?_eq : q.locate? b.id = some ⟨container, index⟩
  blockCount_eq : q.blockCount = p.blockCount + b.family.length
  /-- To take the block out undoes it all. -/
  remove_eq : b.locked = false → q.remove b.id = (.ok b, p)

/-- A program has as many blocks as identifiers. -/
lemma blockCount_eq_length_ids (p : Program) : p.blockCount = p.ids.length := by
  rw [ids, Block.idsOf, List.length_map]
  rfl

/-- What was put into a row stands there. -/
lemma at?_of_row? {row : List (Option Block)} (hindex : index ≤ row.length)
    (hrow : q.row? container = some (row.insertIdx index (some b))) :
    q.at? ⟨container, index⟩ = some b := by
  rw [at?_eq_row?, hrow, Option.bind_some, List.getElem?_insertIdx_self, if_pos hindex]
  rfl

/-- A splice is one of a row, if it leaves the other lists alone and is undone where it was made. -/
lemma spliced_of_row? {row : List (Option Block)} (hq : q.ids.Nodup)
    (hperm : q.ids.Perm (b.ids ++ p.ids)) (hbefore : p.row? container = some row)
    (hindex : index ≤ row.length)
    (hafter : q.row? container = some (row.insertIdx index (some b)))
    (hothers : ∀ other, other ≠ container →
      q.outline? other = (p.outline? other).or (outline? ⟨[some b]⟩ other))
    (hback : q.removeAt ⟨container, index⟩ b.id = (.ok b, p)) :
    p.Spliced container index b q := by
  have hat := at?_of_row? hindex hafter
  constructor
  · exact ⟨row, hbefore, hindex, hafter⟩
  · exact hothers
  · exact (locate?_eq_some_iff hq).mpr ⟨b, hat, rfl⟩
  · rw [blockCount_eq_length_ids, blockCount_eq_length_ids, hperm.length_eq, List.length_append,
      Block.ids, List.length_map, Nat.add_comm]
  · intro hlocked
    rw [remove_eq_removeAt hq hat hlocked, hback]

lemma mem_family_insertIdx (hindex : index ≤ p.slots.length) {a : Block} (ha : a ∈ p.family) :
    a ∈ (mk (p.slots.insertIdx index (some b))).family := by
  rw [family, Block.families_eq_flatMap, List.mem_flatMap] at ha ⊢
  obtain ⟨c, hc, ha⟩ := ha
  obtain ⟨slot, hslot, hsome⟩ := List.mem_filterMap.mp hc
  refine ⟨c, List.mem_filterMap.mpr ⟨slot, ?_, hsome⟩, ha⟩
  exact (List.mem_insertIdx hindex).mpr (.inr hslot)

/-- An insertion between the slots splices the block in. -/
lemma spliced_slots (hq : (mk (p.slots.insertIdx index (some b))).ids.Nodup)
    (hindex : index ≤ p.slots.length) :
    p.Spliced .program index b ⟨p.slots.insertIdx index (some b)⟩ := by
  have hperm := ids_insertIdx_perm hindex b
  have hrow : (mk (p.slots.insertIdx index (some b))).row? .program =
      some (p.slots.insertIdx index (some b)) := rfl
  have hat := at?_of_row? hindex hrow
  refine spliced_of_row? hq hperm rfl hindex hrow ?_ ?_
  · intro other hother
    cases other with
    | program => exact absurd rfl hother
    | part id part =>
      have hnew := Block.families_subset _ (mem_family_of_at? hat)
      exact outline?_part_eq_or hq hperm (fun _ => mem_family_insertIdx hindex) (fun _ => rfl) hnew
        id part fun _ _ _ => rfl
  · have hslot := Option.join_eq_some_iff.mp hat
    simp only [removeAt, hslot, List.eraseIdx_insertIdx_self]

/-- If a list is replaced by a longer one and a block more is in the program for it, the other lists
are those from before and those in the block. -/
lemma outline?_list_eq_or {holder : BlockId} (hp : p.ids.Nodup)
    (hlist : p.list? holder part = .ok list) {bs : List Block} (hq : (list.put bs).ids.Nodup)
    (hperm : (list.put bs).ids.Perm (b.ids ++ p.ids)) (hnew : b.family ⊆ (list.put bs).family)
    (hbs : Block.families list.content ⊆ Block.families bs) (other : Container)
    (hother : other ≠ .part holder part) :
    (list.put bs).outline? other = (p.outline? other).or (outline? ⟨[some b]⟩ other) := by
  obtain ⟨place, cs, hplace, hcs, rfl⟩ := exists_place?_of_list? hlist
  rw [put_list_eq_modify hp hlist] at hq hperm hnew ⊢
  have hemptied : ∀ c : Block, c.id = holder → (c.setPart part bs).emptied = c.emptied :=
    fun c _ => c.emptied_setPart part bs
  have hid : ∀ c : Block, c.id = holder → (c.setPart part bs).id = holder := by
    intro c hc
    rw [Block.id, Block.tag_setPart, ← hc, Block.id]
  have hinside : ∀ c ∈ p.family, c.id = holder → c.inside ⊆ (c.setPart part bs).family := by
    intro c hc hsame
    -- No other block has the id of the holder, so the list is a part of this one.
    have hfind := (find?_eq_some_iff hp).mpr ⟨hc, hsame⟩
    rw [find?_of_place? hplace] at hfind
    obtain rfl := Option.some.inj hfind
    exact List.Subset.trans (Block.inside_subset_setPart hcs hbs) (Block.inside_subset_family _)
  cases other with
  | program =>
    rw [outline?_modify_program hemptied]
    rfl
  | part id other =>
    refine outline?_part_eq_or hq hperm (fun a => mem_family_modify hinside hp)
      (Block.id_modify hid) hnew id other fun a _ ha => ?_
    by_cases hsame : a.id = holder
    · have hne : other ≠ part := by
        rintro rfl
        exact hother (by rw [← ha, hsame])
      rw [Block.modify_of_id hsame, Block.outline?, Block.part?_setPart_of_ne hne, Block.outline?]
    · exact Block.outline?_modify_of_ne hemptied hsame other

/-- An insertion into a part splices the block in. -/
lemma spliced_list {holder : BlockId} (hp : p.ids.Nodup) (hlist : p.list? holder part = .ok list)
    (hq : (list.put (list.content.insertIdx index b)).ids.Nodup)
    (hindex : index ≤ list.content.length) :
    p.Spliced (.part holder part) index b (list.put (list.content.insertIdx index b)) := by
  have hinner := Block.idsOf_insertIdx_perm hindex b
  have hlawful := lawful_of_list? hlist
  have hperm : ([] ++ (list.put (list.content.insertIdx index b)).ids).Perm (b.ids ++ p.ids) :=
    hlawful.ids_put_perm hinner
  have hagain := list?_put hlist (list.content.insertIdx index b)
  have hbefore := row?_part_eq_some_iff.mpr ⟨list, hlist, rfl⟩
  have hafter := row?_part_eq_some_iff.mpr ⟨_, hagain, rfl⟩
  rw [List.map_insertIdx] at hafter
  have hindex' : index ≤ (list.content.map some).length := by rwa [List.length_map]
  have hat := at?_of_row? hindex' hafter
  refine spliced_of_row? hq hperm hbefore hindex' hafter ?_ ?_
  · have hnew := Block.families_subset _ (mem_family_of_at? hat)
    exact outline?_list_eq_or hp hlist hq hperm hnew (Block.families_subset_insertIdx hindex b)
  · have hb : (list.content.insertIdx index b)[index]? = some b := by
      rw [List.getElem?_insertIdx_self, if_pos hindex]
    simp only [removeAt, hagain, hb, List.eraseIdx_insertIdx_self, hlawful.put_content]

/-- A block that is put in, of other blocks than those of the program, is spliced in. -/
theorem spliced_of_insert (hp : p.ids.Nodup) (hb : b.ids.Nodup) (hdisjoint : b.ids.Disjoint p.ids)
    (h : p.insert container index b = (.ok id, q)) :
    id = b.id ∧ p.Spliced container index b q := by
  have hnodup := List.nodup_append'.mpr ⟨hb, hp, hdisjoint⟩
  have hq : q.ids.Nodup := by
    have hsettles := p.settles_insert container index b
    rw [h] at hsettles
    cases hsettles with
    | done hperm => exact hperm.nodup_iff.mpr hnodup
  cases container with
  | program =>
    obtain ⟨rfl, hindex, rfl⟩ := of_insert_program h
    exact ⟨rfl, spliced_slots hq hindex⟩
  | part holder part =>
    obtain ⟨rfl, list, hlist, hindex, rfl⟩ := of_insert_part h
    exact ⟨rfl, spliced_list hp hlist hq hindex⟩

/-! ## The end of a row -/

/-- To push is to insert at the end of the row. -/
lemma push_eq_insert {row : List (Option Block)} (h : p.row? container = some row) :
    p.push container b = p.insert container row.length b := by
  cases container with
  | program =>
    obtain rfl := Option.some.inj h
    rfl
  | part holder part =>
    obtain ⟨list, hlist, rfl⟩ := row?_part_eq_some_iff.mp h
    simp only [push, hlist, List.length_map]

/-- At the end of a row there is room, and no locked block comes after it. -/
lemma exists_insert_length {row : List (Option Block)} (h : p.row? container = some row)
    (hb : p.Admits b) : ∃ q, p.insert container row.length b = (.ok b.id, q) := by
  rw [Admits] at hb
  cases container with
  | program =>
    obtain rfl := Option.some.inj h
    unfold insert
    simp only [hb, Nat.lt_irrefl, if_false]
    split
    · rename_i hlength hfirst
      rw [List.length_eq_zero_iff.mp hlength] at hfirst
      cases hfirst
    · exact ⟨_, rfl⟩
  | part holder part =>
    obtain ⟨list, hlist, rfl⟩ := row?_part_eq_some_iff.mp h
    refine ⟨list.put (list.content.insertIdx list.content.length b), ?_⟩
    simp only [insert, hb, hlist, List.length_map, Nat.lt_irrefl, if_false]

/-- Without a row there is no index to put the block at. -/
lemma push_eq_insert_of_row?_eq_none (h : p.row? container = none) (hb : p.Admits b)
    (index : Nat) : p.push container b = p.insert container index b := by
  rw [Admits] at hb
  cases container with
  | program => cases h
  | part holder part =>
    obtain ⟨error, hlist⟩ := list?_error_of_row? h
    simp only [push, insert, hb, hlist]

/-- The reasons why there is no list. -/
lemma list?_eq_error {error : EditError} (h : p.list? id part = .error error) :
    error = .notFound id ∨ error = .notAContainer id ∨
      error = .wrongContainer id (.part id part) := by
  unfold list? at h
  split at h
  · exact .inl (Except.error.inj h).symm
  · split at h
    · exact .inr (.inl (Except.error.inj h).symm)
    · split at h
      · exact .inr (.inr (Except.error.inj h).symm)
      · cases h

/-- What is put at the end is never refused for a lock or for the index. -/
lemma push_refused {failure : EditFailure} (h : (p.push container b).1 = .error failure) :
    (∀ other, failure ≠ .refused (.locked other)) ∧
      ∀ index size, failure ≠ .refused (.outOfBounds index size) := by
  cases hrow : p.row? container with
  | some row =>
    rw [push_eq_insert hrow] at h
    cases hfind : b.family.find? fun inner => (p.find? inner.id).isSome with
    | some present =>
      simp only [insert, hfind, refuse] at h
      cases h
      simp
    | none =>
      obtain ⟨q, hq⟩ := exists_insert_length hrow hfind
      rw [hq] at h
      cases h
  | none =>
    cases container with
    | program => cases hrow
    | part holder part =>
      obtain ⟨error, hlist⟩ := list?_error_of_row? hrow
      simp only [push, hlist, refuse] at h
      cases h
      obtain rfl | rfl | rfl := list?_eq_error hlist <;> simp

end Program

namespace Session

variable {s : Session} {p : Program} {b : Block}

/-- No block in hand, with those inside it, has an id of a block of a program. -/
lemma Sound.disjoint (h : s.Sound) (hp : p ∈ s.programs) (hb : b ∈ s.hand) :
    b.ids.Nodup ∧ b.ids.Disjoint p.ids := by
  obtain ⟨-, hhand, hdisjoint⟩ := List.nodup_append'.mp h.nodup
  have hsub : b.ids ⊆ Block.idsOf s.hand :=
    List.map_subset Block.id (Block.families_subset _ (Block.mem_families_of_mem hb))
  rw [Block.idsOf, Block.families_eq_flatMap, List.map_flatMap] at hhand
  refine ⟨(List.nodup_flatMap.mp hhand).1 b hb, fun id hid hin => ?_⟩
  exact hdisjoint (List.mem_flatMap.mpr ⟨p, hp, hin⟩) (hsub hid)

/-- In every session a block in hand that is put into a program is spliced in, and at the end of a
container that exists it always can be. -/
theorem Reachable.insert_splices (hs : s.Reachable) (hp : p ∈ s.programs) (hb : b ∈ s.hand) :
    (∀ container index id q, p.insert container index b = (.ok id, q) →
        id = b.id ∧ p.Spliced container index b q) ∧
      (∀ container row, p.row? container = some row →
        p.push container b = p.insert container row.length b ∧
          (p.push container b).1 = .ok b.id) ∧
      (∀ container, p.row? container = none →
        ∀ index, p.push container b = p.insert container index b) ∧
      ∀ container failure, (p.push container b).1 = .error failure →
        (∀ other, failure ≠ .refused (.locked other)) ∧
          ∀ index size, failure ≠ .refused (.outOfBounds index size) := by
  obtain ⟨hnodup, hdisjoint⟩ := hs.sound.disjoint hp hb
  -- In a session, what is in hand shares no identifier with a program.
  have hadmits := Program.admits_of_disjoint hdisjoint
  refine ⟨?_, ?_, ?_, ?_⟩
  · intro container index id q h
    exact Program.spliced_of_insert (hs.sound.nodup_of_mem hp) hnodup hdisjoint h
  · intro container row hrow
    have hpush := Program.push_eq_insert (b := b) hrow
    obtain ⟨q, hq⟩ := Program.exists_insert_length hrow hadmits
    refine ⟨hpush, ?_⟩
    rw [hpush, hq]
  · intro container hrow
    exact Program.push_eq_insert_of_row?_eq_none hrow hadmits
  · intro container failure h
    exact Program.push_refused h

/-- A loop around a block. -/
def printLoop : Block := .whileLoop { id := ⟨4⟩ } none [.action { id := ⟨3⟩ } .print]

/-- A gap and a block with two lists, of which one holds the blocks. -/
def elseBlocks (blocks : List Block) : Program :=
  ⟨[none, some (.ifElse { id := ⟨2⟩ } none [] blocks)]⟩

lemma reachable_printLoop :
    Reachable ⟨[elseBlocks [.action { id := ⟨1⟩ } .print]], [printLoop], ⟨5⟩⟩ := by
  have hload := @Step.load {} [.empty, .ifElse none [] [.print], .whileLoop none [.print]]
  exact .tail (.single hload) (@Step.edit [] [] _ [] ⟨5⟩ (.remove ⟨4⟩))

/-- The loop goes into the else part, before the block there, and can be taken out again. -/
theorem insert_splices_elseBlocks :
    (elseBlocks [.action { id := ⟨1⟩ } .print]).insert (.part ⟨2⟩ .elsePart) 0 printLoop =
        (.ok ⟨4⟩, elseBlocks [printLoop, .action { id := ⟨1⟩ } .print]) ∧
      (elseBlocks [printLoop, .action { id := ⟨1⟩ } .print]).remove ⟨4⟩ =
        (.ok printLoop, elseBlocks [.action { id := ⟨1⟩ } .print]) := by
  have hsplices := reachable_printLoop.insert_splices List.mem_cons_self List.mem_cons_self
  obtain ⟨-, hspliced⟩ := hsplices.1 (.part ⟨2⟩ .elsePart) 0 _ _ rfl
  exact ⟨rfl, hspliced.remove_eq rfl⟩

end Session

end BlockLang
