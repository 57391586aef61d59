import BlockLang.Proofs.Program.Rows

/-!
# Outlines

The outline of a program says of each container which blocks it holds, and of each of these all but
what is inside it, which is the matter of other containers. Main statement: if one block of a
program is changed, all blocks are found again, and only the lists of that block can have another
outline.
-/

namespace BlockLang

variable {id : BlockId} {f : Block → Block}

namespace Block

variable {a b : Block} {bs : List Block} {part : Part}

/-! ## Blocks without the blocks inside them -/

/-- The block with nothing in its lists: its tag, its headers, and what it does. -/
def emptied : Block → Block
  | action tag a => action tag a
  | forLoop tag headers _ => forLoop tag headers []
  | whileLoop tag condition _ => whileLoop tag condition []
  | ifElse tag condition _ _ => ifElse tag condition [] []

lemma emptied_setPart (part : Part) (bs : List Block) (b : Block) :
    (b.setPart part bs).emptied = b.emptied := by
  cases b <;> rfl

/-- The blocks in a part, each without those inside it. -/
def outline? (part : Part) (b : Block) : Option (List Block) :=
  (b.part? part).map (List.map emptied)

/-- The other parts stay. -/
lemma part?_setPart_of_ne {other : Part} (h : other ≠ part) (bs : List Block) (b : Block) :
    (b.setPart part bs).part? other = b.part? other := by
  cases b <;> cases part <;> cases other <;> first | rfl | exact absurd rfl h

/-- Only the last setting of a part counts. -/
lemma setPart_setPart (part : Part) (bs cs : List Block) (b : Block) :
    (b.setPart part bs).setPart part cs = b.setPart part cs := by
  cases b <;> cases part <;> rfl

/-- A longer part holds what was inside the block before. -/
lemma inside_subset_setPart {cs : List Block} (hpart : b.part? part = some bs)
    (hsub : families bs ⊆ families cs) : b.inside ⊆ (b.setPart part cs).inside := by
  intro a ha
  obtain ⟨q, hq, ha⟩ := exists_part_of_mem_inside ha
  have hq := part?_eq_some_iff.mpr hq
  by_cases hsame : q.1 = part
  · rw [hsame, hpart] at hq
    rw [← Option.some.inj hq] at ha
    exact mem_inside_of_part? (part?_setPart hpart cs) (hsub ha)
  · rw [← part?_setPart_of_ne hsame cs] at hq
    exact mem_inside_of_part? hq ha

/-! ## A block that is changed and those around it -/

/-- The block with the identifier is changed itself. -/
lemma modify_of_id (h : b.id = id) : b.modify id f = f b := by
  cases b <;> exact if_pos h

/-- Of a list, each block is changed. -/
lemma modifyAll_eq_map (bs : List Block) : modifyAll id f bs = bs.map (modify id f) := by
  induction bs with
  | nil => rfl
  | cons b bs ih => rw [modifyAll, ih, List.map_cons]

/-- In any other block, the change goes on in the parts. -/
lemma part?_modify_of_ne (h : b.id ≠ id) (part : Part) :
    (b.modify id f).part? part = (b.part? part).map (List.map (modify id f)) := by
  rw [← funext (@modifyAll_eq_map id f)]
  cases b <;> simp only [Block.id, tag, ne_eq] at h <;> rw [modify, if_neg h] <;> cases part <;> rfl

/-- Any other block keeps its tag. -/
lemma tag_modify_of_ne (h : b.id ≠ id) : (b.modify id f).tag = b.tag := by
  cases b <;> simp only [Block.id, tag, ne_eq] at h <;> rw [modify, if_neg h] <;> rfl

lemma emptied_modify_of_ne (h : b.id ≠ id) : (b.modify id f).emptied = b.emptied := by
  cases b <;> simp only [Block.id, tag, ne_eq] at h <;> rw [modify, if_neg h] <;> rfl

lemma id_modify (hf : ∀ b, b.id = id → (f b).id = id) (b : Block) : (b.modify id f).id = b.id := by
  by_cases h : b.id = id
  · rw [modify_of_id h, hf b h, h]
  · exact congrArg Tag.id (tag_modify_of_ne h)

/-- A change that keeps what a block is apart from its parts is not seen outside. -/
lemma emptied_modify (hf : ∀ b, b.id = id → (f b).emptied = b.emptied) (b : Block) :
    (b.modify id f).emptied = b.emptied := by
  by_cases h : b.id = id
  · rw [modify_of_id h, hf b h]
  · exact emptied_modify_of_ne h

/-- A change like that is not seen in the outline of another block. -/
lemma outline?_modify_of_ne (hf : ∀ b, b.id = id → (f b).emptied = b.emptied) (h : b.id ≠ id)
    (part : Part) : (b.modify id f).outline? part = b.outline? part := by
  rw [outline?, outline?, part?_modify_of_ne h, Option.map_map]
  congr 1
  funext bs
  rw [Function.comp_apply, List.map_map]
  exact List.map_congr_left fun c _ => emptied_modify hf c

/-- What is inside a block does not have its id, so it is not changed with it. -/
lemma modify_of_mem_inside (h : b.ids.Nodup) (hid : b.id = id) (ha : a ∈ b.inside) :
    a.modify id f = a := by
  apply modify_of_not_mem
  intro hmem
  obtain ⟨c, hc, hsame⟩ := List.mem_map.mp hmem
  refine id_ne_of_mem_inside h (families_subset _ ha hc) ?_
  rw [hid, hsame]

end Block

mutual

/-- All blocks of a block are there after the change, each as the change leaves it. -/
theorem Block.mem_family_modify (b : Block)
    (hf : ∀ c ∈ b.family, c.id = id → c.inside ⊆ (f c).family) (h : b.ids.Nodup) {a : Block}
    (ha : a ∈ b.family) :
    a.modify id f ∈ (b.modify id f).family := by
  by_cases hid : b.id = id
  · rw [modify_of_id hid]
    rw [family_eq_cons, List.mem_cons] at ha
    obtain rfl | ha := ha
    · rw [modify_of_id hid]
      exact (f a).mem_family_self
    · rw [modify_of_mem_inside h hid ha]
      exact hf b b.mem_family_self hid ha
  · cases b with
    | action tag c =>
      rw [List.mem_singleton.mp ha]
      exact mem_family_self _
    -- The block itself is changed in its list only; for all others the change is one in the list.
    | forLoop tag headers body =>
      rw [ids_forLoop, List.nodup_cons] at h
      obtain rfl | ha := List.mem_cons.mp ha
      · exact mem_family_self _
      · rw [modify, if_neg (show tag.id ≠ id from hid)]
        have hbody := Block.mem_families_modifyAll body (List.forall_mem_cons.mp hf).2 h.2 ha
        exact List.mem_cons_of_mem _ hbody
    | whileLoop tag condition body =>
      rw [ids_whileLoop, List.nodup_cons] at h
      obtain rfl | ha := List.mem_cons.mp ha
      · exact mem_family_self _
      · rw [modify, if_neg (show tag.id ≠ id from hid)]
        have hbody := Block.mem_families_modifyAll body (List.forall_mem_cons.mp hf).2 h.2 ha
        exact List.mem_cons_of_mem _ hbody
    | ifElse tag condition ifPart elsePart =>
      rw [ids_ifElse, List.nodup_cons, List.nodup_append'] at h
      obtain ⟨-, hif, helse, -⟩ := h
      obtain rfl | ha := List.mem_cons.mp ha
      · exact mem_family_self _
      · rw [modify, if_neg (show tag.id ≠ id from hid)]
        refine List.mem_cons_of_mem _ (List.mem_append.mpr ?_)
        have hf := List.forall_mem_append.mp (List.forall_mem_cons.mp hf).2
        obtain ha | ha := List.mem_append.mp ha
        · exact .inl (Block.mem_families_modifyAll ifPart hf.1 hif ha)
        · exact .inr (Block.mem_families_modifyAll elsePart hf.2 helse ha)

/-- A block of a list is there after the change, with the change in it. -/
theorem Block.mem_families_modifyAll (bs : List Block)
    (hf : ∀ c ∈ families bs, c.id = id → c.inside ⊆ (f c).family) (h : (idsOf bs).Nodup)
    {a : Block} (ha : a ∈ families bs) :
    a.modify id f ∈ families (Block.modifyAll id f bs) := by
  cases bs with
  | nil => cases ha
  | cons b bs =>
    rw [idsOf_cons, List.nodup_append'] at h
    obtain ⟨hb, hbs, -⟩ := h
    have hf := List.forall_mem_append.mp hf
    rw [modifyAll, families, List.mem_append]
    obtain ha | ha := List.mem_append.mp ha
    · exact .inl (Block.mem_family_modify b hf.1 hb ha)
    · exact .inr (Block.mem_families_modifyAll bs hf.2 hbs ha)

end

namespace Program

variable {p : Program}

lemma blocks_modify (p : Program) : (p.modify id f).blocks = p.blocks.map (Block.modify id f) := by
  rw [blocks, modify, List.filterMap_map, blocks, List.map_filterMap]
  rfl

/-- A block of a program is there after the change, with the change in it. -/
lemma mem_family_modify (hf : ∀ c ∈ p.family, c.id = id → c.inside ⊆ (f c).family)
    (h : p.ids.Nodup) {a : Block} (ha : a ∈ p.family) :
    a.modify id f ∈ (p.modify id f).family := by
  rw [family, blocks_modify, ← Block.modifyAll_eq_map]
  exact Block.mem_families_modifyAll p.blocks hf h ha

/-- After a change all blocks are found again, each as the change leaves it. -/
theorem find?_modify (hf : ∀ c ∈ p.family, c.id = id → c.inside ⊆ (f c).family)
    (hid : ∀ b, b.id = id → (f b).id = id) (h : p.ids.Nodup) (hq : (p.modify id f).ids.Nodup)
    {a : Block} (ha : a ∈ p.family) : (p.modify id f).find? a.id = some (a.modify id f) :=
  (find?_eq_some_iff hq).mpr ⟨mem_family_modify hf h ha, Block.id_modify hid a⟩

/-! ## Outlines of programs -/

/-- What a container holds, with the gaps, each block without those inside it. -/
def outline? (p : Program) (container : Container) : Option (List (Option Block)) :=
  (p.row? container).map (List.map (Option.map Block.emptied))

/-- The outline of a part is that of the block that is found. -/
lemma outline?_part (p : Program) (id : BlockId) (part : Block.Part) :
    p.outline? (.part id part) =
      ((p.find? id).bind (Block.outline? part)).map (List.map some) := by
  rw [outline?, row?, Option.map_map]
  cases p.find? id with
  | none => rfl
  | some b =>
    rw [Option.bind_some, Option.bind_some, Block.outline?, Option.map_map]
    cases b.part? part with
    | none => rfl
    | some bs => simp

lemma outline?_modify_program (hf : ∀ b, b.id = id → (f b).emptied = b.emptied) :
    (p.modify id f).outline? .program = p.outline? .program := by
  show some _ = some _
  rw [modify, List.map_map]
  refine congrArg some (List.map_congr_left fun slot _ => ?_)
  cases slot with
  | none => rfl
  | some b => exact congrArg some (Block.emptied_modify hf b)

/-- Only what has no block with the identifier finds none. -/
lemma find?_eq_none_iff : p.find? id = none ↔ id ∉ p.ids := by
  rw [find?_eq, List.find?_eq_none, ids, Block.idsOf, List.mem_map]
  simp [family]

lemma ids_singleton (b : Block) : (mk [some b]).ids = b.ids := by
  rw [ids_some]
  exact List.append_nil _

/-- If a program has the blocks of another one, some of them changed, and one block more with those
inside it, its lists are those of the two. -/
lemma outline?_part_eq_or {q : Program} {b : Block} {g : Block → Block} (hq : q.ids.Nodup)
    (hperm : q.ids.Perm (b.ids ++ p.ids)) (hold : ∀ a ∈ p.family, g a ∈ q.family)
    (hid : ∀ a, (g a).id = a.id) (hnew : b.family ⊆ q.family) (id : BlockId) (part : Block.Part)
    (hsame : ∀ a ∈ p.family, a.id = id → (g a).outline? part = a.outline? part) :
    q.outline? (.part id part) =
      (p.outline? (.part id part)).or (outline? ⟨[some b]⟩ (.part id part)) := by
  have hnodup := hperm.nodup_iff.mp hq
  obtain ⟨hb, hp, hdisjoint⟩ := List.nodup_append'.mp hnodup
  rw [outline?_part, outline?_part, outline?_part]
  -- The holder of the list is an old block, a new one, or there is none.
  by_cases hmem : id ∈ p.ids
  · obtain ⟨a, ha, rfl⟩ := List.mem_map.mp hmem
    have hbefore := (find?_eq_some_iff hp).mpr ⟨ha, rfl⟩
    have hafter := (find?_eq_some_iff hq).mpr ⟨hold a ha, hid a⟩
    have hnone : (mk [some b]).find? a.id = none := by
      rw [find?_eq_none_iff, ids_singleton]
      exact fun hin => hdisjoint hin hmem
    rw [hbefore, hafter, hnone, Option.bind_some, Option.bind_some, hsame a ha rfl]
    exact Option.or_none.symm
  · rw [find?_eq_none_iff.mpr hmem]
    by_cases hin : id ∈ b.ids
    · obtain ⟨a, ha, rfl⟩ := List.mem_map.mp hin
      have hafter := (find?_eq_some_iff hq).mpr ⟨hnew ha, rfl⟩
      rw [← ids_singleton] at hb
      have hgiven := (find?_eq_some_iff hb).mpr ⟨List.mem_append_left _ ha, rfl⟩
      rw [hafter, hgiven]
      rfl
    · have hafter : id ∉ q.ids := by
        rw [hperm.mem_iff, List.mem_append, not_or]
        exact ⟨hin, hmem⟩
      rw [← ids_singleton] at hin
      rw [find?_eq_none_iff.mpr hafter, find?_eq_none_iff.mpr hin]
      rfl

end Program

end BlockLang
