import BlockLang.Proofs.Program.Addresses
import BlockLang.Proofs.Program.Locks
import BlockLang.Proofs.Program.Modify

/-!
# Rows

What a container holds is a row, which has gaps only in the program itself. Main statements: in a
program whose blocks have different ids, a block stands in one row only and is located there, and
the change of a block leaves all other blocks where they are.
-/

namespace BlockLang

/-! ## One location for each block -/

namespace Block

variable {b c : Block} {bs cs : List Block} {part : Part} {l : Location} {id : BlockId}

/-- What is in a part of a block is inside the block. -/
lemma mem_inside_of_part? (hpart : b.part? part = some bs) (hc : c ∈ families bs) :
    c ∈ b.inside := by
  rw [inside, families_eq_flatMap, List.mem_flatMap]
  rw [families_eq_flatMap, List.mem_flatMap] at hc
  obtain ⟨d, hd, hc⟩ := hc
  exact ⟨d, List.mem_flatMap.mpr ⟨(part, bs), part?_eq_some_iff.mp hpart, hd⟩, hc⟩

/-- What is inside a block is in one of its parts. -/
lemma exists_part_of_mem_inside (hc : c ∈ b.inside) : ∃ q ∈ b.parts, c ∈ families q.2 := by
  rw [inside, families_eq_flatMap, List.mem_flatMap] at hc
  obtain ⟨d, hd, hc⟩ := hc
  obtain ⟨q, hq, hd⟩ := List.mem_flatMap.mp hd
  refine ⟨q, hq, ?_⟩
  rw [families_eq_flatMap]
  exact List.mem_flatMap.mpr ⟨d, hd, hc⟩

lemma inside_subset_family (b : Block) : b.inside ⊆ b.family := by
  rw [family_eq_cons]
  exact List.subset_cons_self _ _

lemma mem_families_of_mem (hc : c ∈ bs) : c ∈ families bs := by
  rw [families_eq_flatMap]
  exact List.mem_flatMap.mpr ⟨c, hc, c.mem_family_self⟩

/-- In a block whose ids are different, none inside has the id of the block. -/
lemma id_ne_of_mem_inside (h : b.ids.Nodup) (hc : c ∈ b.inside) : b.id ≠ c.id := by
  rw [ids_eq_cons, List.nodup_cons] at h
  intro hsame
  apply h.1
  rw [hsame]
  exact List.mem_map_of_mem hc

/-- What stands in a part of a block of a list is inside that block. -/
lemma StandsIn.mem_inside (h : StandsIn bs l c) : ∃ holder ∈ bs, c ∈ holder.inside := by
  obtain ⟨holder, hmem, part, cs, -, hpart, hindex⟩ := h
  have hc := mem_families_of_mem (List.mem_of_getElem? hindex)
  exact ⟨holder, hmem, mem_inside_of_part? hpart hc⟩

/-- What stands in a list is one of its blocks. -/
lemma StandsFrom.mem_families {container : Container} {index : Nat}
    (h : StandsFrom container index bs l c) : c ∈ families bs := by
  obtain ⟨k, -, hk⟩ | h := h
  · exact mem_families_of_mem (List.mem_of_getElem? hk)
  · obtain ⟨holder, hmem, hc⟩ := h.mem_inside
    exact families_subset bs hmem (holder.inside_subset_family hc)

lemma StandsFrom.id_mem {container : Container} {index : Nat}
    (h : StandsFrom container index bs l c) : c.id ∈ idsOf bs :=
  List.mem_map_of_mem h.mem_families

/-- What stands inside a block stands in one of its parts or inside a block there. -/
lemma StandsIn.exists_part (h : StandsIn b.family l c) :
    ∃ q ∈ b.parts, StandsFrom (.part b.id q.1) 0 q.2 l c := by
  obtain ⟨holder, hmem, part, bs, hl, hpart, hindex⟩ := h
  rw [family_eq_cons, List.mem_cons] at hmem
  obtain rfl | hmem := hmem
  · refine ⟨(part, bs), part?_eq_some_iff.mp hpart, .inl ⟨l.index, ?_, hindex⟩⟩
    rw [Nat.zero_add, ← hl]
  · obtain ⟨q, hq, hmem⟩ := exists_part_of_mem_inside hmem
    exact ⟨q, hq, .inr ⟨holder, hmem, part, bs, hl, hpart, hindex⟩⟩

lemma StandsIn.mem_inside_self (h : StandsIn b.family l c) : c ∈ b.inside := by
  obtain ⟨q, hq, hc⟩ := h.exists_part
  exact mem_inside_of_part? (part?_eq_some_iff.mpr hq) hc.mem_families

/-- What stands in a list is its first block, inside it, or later. -/
lemma StandsFrom.of_cons {container : Container} {index : Nat}
    (h : StandsFrom container index (b :: bs) l c) :
    (l = ⟨container, index⟩ ∧ c = b) ∨ StandsIn b.family l c ∨
      StandsFrom container (index + 1) bs l c := by
  obtain ⟨_ | k, rfl, hk⟩ | ⟨holder, hmem, hplace⟩ := h
  · exact .inl ⟨rfl, (Option.some.inj hk).symm⟩
  · exact .inr (.inr (.inl ⟨k, by rw [Nat.add_assoc, Nat.add_comm 1 k], hk⟩))
  · rw [families, List.mem_append] at hmem
    obtain hmem | hmem := hmem
    · exact .inr (.inl ⟨holder, hmem, hplace⟩)
    · exact .inr (.inr (.inr ⟨holder, hmem, hplace⟩))

/-- An identifier that is not in a list has no place there. -/
lemma locateIn?_of_not_mem (container : Container) (index : Nat) (h : id ∉ idsOf bs) :
    Block.locateIn? id container index bs = none := by
  rw [← Option.not_isSome_iff_eq_none, isSome_eq_of_rel (Block.locateIn?_rel id bs _ index),
    ← isSome_eq_of_rel (Block.placeIn?_rel id bs), isSome_placeIn?_iff]
  exact h

/-- An identifier that is not in a block has no place there. -/
lemma locate?_of_not_mem (h : id ∉ b.ids) : b.locate? id = none := by
  have hid : b.id ≠ id := by
    rintro rfl
    exact h (List.mem_map_of_mem b.mem_family_self)
  rw [← Option.not_isSome_iff_eq_none, isSome_eq_of_rel (b.locate?_rel hid),
    ← isSome_eq_of_rel (Block.place?_rel id b), isSome_place?_iff]
  exact h

end Block

mutual

/-- A block inside another is located where it stands. -/
theorem Block.locate?_of_standsIn {l : Location} {c : Block} (b : Block) (h : b.ids.Nodup)
    (hc : StandsIn b.family l c) : b.locate? c.id = some l := by
  obtain ⟨q, hq, hc⟩ := hc.exists_part
  cases b with
  | action tag a => cases hq
  | forLoop tag headers body =>
    obtain rfl := List.mem_singleton.mp hq
    rw [ids_forLoop, List.nodup_cons] at h
    rw [locate?]
    exact Block.locateIn?_of_standsFrom body h.2 hc
  | whileLoop tag condition body =>
    obtain rfl := List.mem_singleton.mp hq
    rw [ids_whileLoop, List.nodup_cons] at h
    rw [locate?]
    exact Block.locateIn?_of_standsFrom body h.2 hc
  | ifElse tag condition ifPart elsePart =>
    rw [ids_ifElse, List.nodup_cons, List.nodup_append'] at h
    obtain ⟨-, hif, helse, hdisjoint⟩ := h
    rw [locate?]
    obtain rfl | hq := List.mem_cons.mp hq
    · exact Option.or_eq_some_iff.mpr (.inl (Block.locateIn?_of_standsFrom ifPart hif hc))
    · obtain rfl := List.mem_singleton.mp hq
      -- The block is in the else part, so the search in the if part does not come to it.
      have hnot : c.id ∉ idsOf ifPart := fun hmem => hdisjoint hmem hc.id_mem
      rw [locateIn?_of_not_mem _ 0 hnot, Option.none_or]
      exact Block.locateIn?_of_standsFrom elsePart helse hc

/-- With distinct identifiers, a block of a list is located where it stands. -/
theorem Block.locateIn?_of_standsFrom {l : Location} {c : Block} (bs : List Block)
    (h : (idsOf bs).Nodup) {container : Container} {index : Nat}
    (hc : StandsFrom container index bs l c) :
    Block.locateIn? c.id container index bs = some l := by
  cases bs with
  | nil => cases hc.mem_families
  | cons b bs =>
    rw [idsOf_cons, List.nodup_append'] at h
    obtain ⟨hb, hbs, hdisjoint⟩ := h
    rw [locateIn?]
    obtain ⟨rfl, rfl⟩ | hc | hc := hc.of_cons
    · exact if_pos rfl
    · rw [if_neg (id_ne_of_mem_inside hb hc.mem_inside_self),
        Block.locate?_of_standsIn b hb hc]
      rfl
    · have hnot : c.id ∉ b.ids := fun hmem => hdisjoint hmem hc.id_mem
      have hid : b.id ≠ c.id := by
        intro hsame
        rw [← hsame] at hnot
        exact hnot (List.mem_map_of_mem b.mem_family_self)
      rw [if_neg hid, locate?_of_not_mem hnot, Option.none_or]
      exact Block.locateIn?_of_standsFrom bs hbs hc

end

namespace Program

variable {p : Program} {b c : Block} {l : Location} {id : BlockId}

/-- What stands in slots is in the first slot, inside a block there, or later. -/
lemma StandsFrom.of_cons {index : Nat} {slot : Option Block} {slots : List (Option Block)}
    (h : StandsFrom index (slot :: slots) l c) :
    (l = ⟨.program, index⟩ ∧ slot = some c) ∨
      (∃ b, slot = some b ∧ Block.StandsIn b.family l c) ∨ StandsFrom (index + 1) slots l c := by
  obtain ⟨_ | k, rfl, hk⟩ | ⟨holder, hmem, hplace⟩ := h
  · exact .inl ⟨rfl, Option.some.inj hk⟩
  · exact .inr (.inr (.inl ⟨k, by rw [Nat.add_assoc, Nat.add_comm 1 k], hk⟩))
  · cases slot with
    | none => exact .inr (.inr (.inr ⟨holder, hmem, hplace⟩))
    | some b =>
      obtain hmem | hmem := List.mem_append.mp hmem
      · exact .inr (.inl ⟨b, rfl, holder, hmem, hplace⟩)
      · exact .inr (.inr (.inr ⟨holder, hmem, hplace⟩))

/-- A block in a slot is one of the program. -/
lemma mem_family_of_getElem? {slots : List (Option Block)} {index : Nat}
    (h : slots[index]? = some (some c)) : c ∈ (mk slots).family :=
  mem_family_of_mem_blocks (List.mem_filterMap.mpr ⟨some c, List.mem_of_getElem? h, rfl⟩)

lemma StandsFrom.mem_family {index : Nat} {slots : List (Option Block)}
    (h : StandsFrom index slots l c) : c ∈ (mk slots).family := by
  obtain ⟨k, -, hk⟩ | h := h
  · exact mem_family_of_getElem? hk
  · obtain ⟨holder, hmem, hc⟩ := h.mem_inside
    exact Block.families_subset _ hmem (holder.inside_subset_family hc)

/-- A block in slots is located where it stands. -/
lemma locateFrom?_of_standsFrom {index : Nat} {slots : List (Option Block)}
    (h : (mk slots).ids.Nodup) (hc : StandsFrom index slots l c) :
    locateFrom? c.id index slots = some l := by
  induction slots generalizing index with
  | nil => cases hc.mem_family
  | cons slot slots ih =>
    rw [ids_cons, List.nodup_append'] at h
    obtain ⟨hslot, hslots, hdisjoint⟩ := h
    -- The block is in the first slot, inside the block there, or in a later slot.
    obtain ⟨rfl, rfl⟩ | ⟨b, rfl, hb⟩ | hbehind := hc.of_cons
    · exact if_pos rfl
    · rw [Option.toList_some, Block.idsOf_cons, Block.idsOf_nil, List.append_nil] at hslot
      rw [locateFrom?, if_neg (Block.id_ne_of_mem_inside hslot hb.mem_inside_self),
        Block.locate?_of_standsIn b hslot hb]
      rfl
    · have hlater := ih hslots hbehind
      cases slot with
      | none => exact hlater
      | some b =>
        rw [Option.toList_some, Block.idsOf_cons, Block.idsOf_nil, List.append_nil] at hdisjoint
        have hmem : c.id ∈ (mk slots).ids := List.mem_map_of_mem hbehind.mem_family
        have hnot : c.id ∉ b.ids := fun hfirst => hdisjoint hfirst hmem
        have hid : b.id ≠ c.id := by
          intro hsame
          rw [← hsame] at hnot
          exact hnot (List.mem_map_of_mem b.mem_family_self)
        rw [locateFrom?, if_neg hid, Block.locate?_of_not_mem hnot, Option.none_or]
        exact hlater

/-- What `at?` gives stands at the place. -/
lemma standsAt_of_at? (h : p.at? l = some b) : p.StandsAt l b := by
  obtain ⟨container, index⟩ := l
  cases container with
  | program => exact .inl ⟨rfl, Option.join_eq_some_iff.mp h⟩
  | part id part =>
    cases hlist : p.list? id part with
    | error error =>
      simp only [at?, hlist] at h
      cases h
    | ok list =>
      simp only [at?, hlist] at h
      obtain ⟨place, bs, hplace, hbs, rfl⟩ := exists_place?_of_list? hlist
      obtain rfl := id_of_place? hplace
      exact .inr ⟨place.content, mem_family_of_place? hplace, part, bs, rfl, hbs, h⟩

lemma mem_family_of_at? (h : p.at? l = some b) : b ∈ p.family := by
  obtain ⟨-, hslot⟩ | hb := standsAt_of_at? h
  · exact mem_family_of_getElem? hslot
  · obtain ⟨holder, hmem, hb⟩ := hb.mem_inside
    exact Block.families_subset _ hmem (holder.inside_subset_family hb)

/-- A block is located where it stands, and it stands nowhere else. -/
theorem locate?_eq_some_iff (h : p.ids.Nodup) :
    p.locate? id = some l ↔ ∃ b, p.at? l = some b ∧ b.id = id := by
  constructor
  · intro hl
    obtain ⟨b, hb, hat⟩ := exists_of_rel (at?_locate? h id) hl
    exact ⟨b, hat, ((find?_eq_some_iff h).mp hb).2⟩
  · rintro ⟨b, hat, rfl⟩
    apply locateFrom?_of_standsFrom h
    obtain ⟨hl, hslot⟩ | hb := standsAt_of_at? hat
    · exact .inl ⟨l.index, by rw [Nat.zero_add, ← hl], hslot⟩
    · exact .inr hb

/-- With distinct identifiers, every block of a program is located where it stands. -/
lemma exists_locate? (h : p.ids.Nodup) (hb : b ∈ p.family) :
    ∃ l, p.locate? b.id = some l ∧ p.at? l = some b := by
  have hfind := (find?_eq_some_iff h).mpr ⟨hb, rfl⟩
  have hsome : (p.locate? b.id).isSome := by
    rw [isSome_eq_of_rel (at?_locate? h b.id), hfind]
    rfl
  obtain ⟨l, hl⟩ := Option.isSome_iff_exists.mp hsome
  obtain ⟨c, hc, hat⟩ := exists_of_rel (at?_locate? h b.id) hl
  rw [hfind] at hc
  obtain rfl := Option.some.inj hc
  exact ⟨l, hl, hat⟩

/-! ## What a container holds -/

/-- What a container holds, with the gaps between slots. -/
def row? (p : Program) : Container → Option (List (Option Block))
  | .program => some p.slots
  | .part id part => ((p.find? id).bind (·.part? part)).map (List.map some)

/-- The row of a part is the list that is there, without gaps. -/
lemma row?_part_eq_some_iff {part : Block.Part} {row : List (Option Block)} :
    p.row? (.part id part) = some row ↔
      ∃ list, p.list? id part = .ok list ∧ list.content.map some = row := by
  constructor
  · intro h
    obtain ⟨bs, hbs, rfl⟩ := Option.map_eq_some_iff.mp h
    obtain ⟨b, hb, hpart⟩ := Option.bind_eq_some_iff.mp hbs
    obtain ⟨list, hlist, rfl⟩ := exists_list? hb hpart
    exact ⟨list, hlist, rfl⟩
  · rintro ⟨list, hlist, rfl⟩
    obtain ⟨place, bs, hplace, hbs, rfl⟩ := exists_place?_of_list? hlist
    rw [row?, find?_of_place? hplace, Option.bind_some, hbs]
    rfl

lemma list?_error_of_row? {part : Block.Part} (h : p.row? (.part id part) = none) :
    ∃ error, p.list? id part = .error error := by
  cases hlist : p.list? id part with
  | error error => exact ⟨error, rfl⟩
  | ok list =>
    have hrow := row?_part_eq_some_iff.mpr ⟨list, hlist, rfl⟩
    rw [h] at hrow
    cases hrow

/-- A place is looked up in the row of its container. -/
lemma at?_eq_row? (p : Program) (l : Location) :
    p.at? l = (p.row? l.container).bind fun row => row[l.index]?.join := by
  obtain ⟨container, index⟩ := l
  cases container with
  | program => rfl
  | part id part =>
    cases hrow : p.row? (.part id part) with
    | none =>
      obtain ⟨error, hlist⟩ := list?_error_of_row? hrow
      simp only [at?, hlist]
      rfl
    | some row =>
      obtain ⟨list, hlist, rfl⟩ := row?_part_eq_some_iff.mp hrow
      simp only [at?, hlist]
      rw [Option.bind_some, List.getElem?_map]
      cases list.content[index]? <;> rfl

end Program

end BlockLang
