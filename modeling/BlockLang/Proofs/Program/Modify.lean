import BlockLang.Proofs.Program.Edits

/-!
# Changing one block

Main statements: in a program whose blocks have different ids, to put something into the place of a
block is to change that block wherever it is and nothing else, and a block that was put into the
place of another with the same id is found there again.
-/

namespace BlockLang

mutual

/-- Changes the blocks with the id, and nothing else. -/
def Block.modify (id : BlockId) (f : Block → Block) : Block → Block
  | .action tag a => if tag.id = id then f (.action tag a) else .action tag a
  | .forLoop tag headers body =>
    if tag.id = id then f (.forLoop tag headers body)
    else .forLoop tag headers (Block.modifyAll id f body)
  | .whileLoop tag condition body =>
    if tag.id = id then f (.whileLoop tag condition body)
    else .whileLoop tag condition (Block.modifyAll id f body)
  | .ifElse tag condition ifPart elsePart =>
    if tag.id = id then f (.ifElse tag condition ifPart elsePart)
    else .ifElse tag condition (Block.modifyAll id f ifPart) (Block.modifyAll id f elsePart)

/-- Changes the blocks with the id in a list or inside it. -/
def Block.modifyAll (id : BlockId) (f : Block → Block) : List Block → List Block
  | [] => []
  | b :: bs => b.modify id f :: Block.modifyAll id f bs

end

/-- Changes the blocks with the id in a program. -/
def Program.modify (id : BlockId) (f : Block → Block) (p : Program) : Program :=
  ⟨p.slots.map (Option.map (Block.modify id f))⟩

variable {id : BlockId} {f : Block → Block}

/-! ## Places and ids -/

namespace Block

/-- An identifier has a place in a block if and only if it is among its identifiers. -/
lemma isSome_place?_iff (b : Block) : (b.place? id).isSome ↔ id ∈ b.ids := by
  rw [isSome_eq_of_rel (Block.place?_rel id b), Block.find?_eq, List.find?_isSome, ids,
    List.mem_map]
  simp

/-- An identifier has a place in a list if and only if it is among its identifiers. -/
lemma isSome_placeIn?_iff (bs : List Block) : (Block.placeIn? id bs).isSome ↔ id ∈ idsOf bs := by
  rw [isSome_eq_of_rel (Block.placeIn?_rel id bs), Block.findIn?_eq, List.find?_isSome, idsOf,
    List.mem_map]
  simp

lemma mem_ids_of_place? {b : Block} {place : Place Block Block} (h : b.place? id = some place) :
    id ∈ b.ids :=
  b.isSome_place?_iff.mp (Option.isSome_of_eq_some h)

lemma not_mem_ids_of_place? {b : Block} (h : b.place? id = none) : id ∉ b.ids := by
  rw [← isSome_place?_iff, h]
  exact Bool.false_ne_true

lemma mem_idsOf_of_placeIn? {bs : List Block} {place : Place Block (List Block)}
    (h : Block.placeIn? id bs = some place) : id ∈ idsOf bs :=
  (isSome_placeIn?_iff bs).mp (Option.isSome_of_eq_some h)

lemma not_mem_idsOf_of_placeIn? {bs : List Block} (h : Block.placeIn? id bs = none) :
    id ∉ idsOf bs := by
  rw [← isSome_placeIn?_iff, h]
  exact Bool.false_ne_true

end Block

/-! ## Nothing to change -/

mutual

/-- Where the identifier is missing, there is nothing to change. -/
theorem Block.modify_of_not_mem (b : Block) (h : id ∉ b.ids) : b.modify id f = b := by
  cases b with
  | action tag a =>
    have hid : tag.id ≠ id := fun heq => h (heq ▸ List.mem_cons_self)
    rw [modify, if_neg hid]
  | forLoop tag headers body =>
    rw [ids_forLoop, List.mem_cons, not_or] at h
    rw [modify, if_neg (Ne.symm h.1), Block.modifyAll_of_not_mem body h.2]
  | whileLoop tag condition body =>
    rw [ids_whileLoop, List.mem_cons, not_or] at h
    rw [modify, if_neg (Ne.symm h.1), Block.modifyAll_of_not_mem body h.2]
  | ifElse tag condition ifPart elsePart =>
    rw [ids_ifElse, List.mem_cons, List.mem_append, not_or, not_or] at h
    rw [modify, if_neg (Ne.symm h.1), Block.modifyAll_of_not_mem ifPart h.2.1,
      Block.modifyAll_of_not_mem elsePart h.2.2]

theorem Block.modifyAll_of_not_mem (bs : List Block) (h : id ∉ idsOf bs) :
    Block.modifyAll id f bs = bs := by
  cases bs with
  | nil => rfl
  | cons b bs =>
    rw [idsOf_cons, List.mem_append, not_or] at h
    rw [modifyAll, Block.modify_of_not_mem b h.1, Block.modifyAll_of_not_mem bs h.2]

end

/-! ## Changing the block in a place -/

mutual

/-- With distinct identifiers, to put a changed block at its place is to change it. -/
theorem Block.put_eq_modify (b : Block) (hnodup : b.ids.Nodup) {place : Place Block Block}
    (h : b.place? id = some place) : place.put (f place.content) = b.modify id f := by
  cases b with
  | action tag a =>
    rw [place?] at h
    split at h
    · rename_i hid
      cases h
      rw [modify, if_pos hid]
      rfl
    · cases h
  | forLoop tag headers body =>
    rw [place?] at h
    split at h
    · rename_i hid
      cases h
      rw [modify, if_pos hid]
      rfl
    · rename_i hid
      obtain ⟨inner, hinner, rfl⟩ := Option.map_eq_some_iff.mp h
      rw [ids_forLoop, List.nodup_cons] at hnodup
      rw [modify, if_neg hid, ← Block.putIn_eq_modifyAll body hnodup.2 hinner]
      rfl
  | whileLoop tag condition body =>
    rw [place?] at h
    split at h
    · rename_i hid
      cases h
      rw [modify, if_pos hid]
      rfl
    · rename_i hid
      obtain ⟨inner, hinner, rfl⟩ := Option.map_eq_some_iff.mp h
      rw [ids_whileLoop, List.nodup_cons] at hnodup
      rw [modify, if_neg hid, ← Block.putIn_eq_modifyAll body hnodup.2 hinner]
      rfl
  | ifElse tag condition ifPart elsePart =>
    rw [place?] at h
    split at h
    · rename_i hid
      cases h
      rw [modify, if_pos hid]
      rfl
    · rename_i hid
      rw [ids_ifElse, List.nodup_cons, List.nodup_append'] at hnodup
      obtain ⟨-, hif, helse, hdisjoint⟩ := hnodup
      rw [modify, if_neg hid]
      -- The block is in one of the parts, and the other part has no block with the id.
      obtain h | ⟨hnone, h⟩ := Option.or_eq_some_iff.mp h
      · obtain ⟨inner, hinner, rfl⟩ := Option.map_eq_some_iff.mp h
        rw [Block.modifyAll_of_not_mem elsePart (hdisjoint (mem_idsOf_of_placeIn? hinner)),
          ← Block.putIn_eq_modifyAll ifPart hif hinner]
        rfl
      · obtain ⟨inner, hinner, rfl⟩ := Option.map_eq_some_iff.mp h
        rw [Block.modifyAll_of_not_mem ifPart
            (not_mem_idsOf_of_placeIn? (Option.map_eq_none_iff.mp hnone)),
          ← Block.putIn_eq_modifyAll elsePart helse hinner]
        rfl

theorem Block.putIn_eq_modifyAll (bs : List Block) (hnodup : (idsOf bs).Nodup)
    {place : Place Block (List Block)} (h : Block.placeIn? id bs = some place) :
    place.put (f place.content) = Block.modifyAll id f bs := by
  cases bs with
  | nil => cases h
  | cons b bs =>
    rw [idsOf_cons, List.nodup_append'] at hnodup
    obtain ⟨hb, hbs, hdisjoint⟩ := hnodup
    rw [placeIn?] at h
    rw [modifyAll]
    obtain h | ⟨hnone, h⟩ := Option.or_eq_some_iff.mp h
    · obtain ⟨inner, hinner, rfl⟩ := Option.map_eq_some_iff.mp h
      rw [Block.modifyAll_of_not_mem bs (hdisjoint (mem_ids_of_place? hinner)),
        ← Block.put_eq_modify b hb hinner]
      rfl
    · obtain ⟨inner, hinner, rfl⟩ := Option.map_eq_some_iff.mp h
      rw [Block.modify_of_not_mem b (not_mem_ids_of_place? (Option.map_eq_none_iff.mp hnone)),
        ← Block.putIn_eq_modifyAll bs hbs hinner]
      rfl

end

namespace Program

variable {p : Program}

/-- Where the identifier is missing, the slots stay. -/
lemma map_modify_of_not_mem {slots : List (Option Block)} (h : id ∉ (mk slots).ids) :
    slots.map (Option.map (Block.modify id f)) = slots := by
  induction slots with
  | nil => rfl
  | cons slot slots ih =>
    rw [ids_cons, List.mem_append, not_or] at h
    rw [List.map_cons, ih h.2]
    cases slot with
    | none => rfl
    | some b => rw [Option.map_some, Block.modify_of_not_mem b (by simpa using h.1)]

/-- With distinct identifiers, a change at a place is a change of one slot. -/
lemma putInSlots_eq_map {slots : List (Option Block)} (hnodup : (mk slots).ids.Nodup)
    {place : Place Block (List (Option Block))} (h : placeInSlots? id slots = some place) :
    place.put (f place.content) = slots.map (Option.map (Block.modify id f)) := by
  induction slots generalizing place with
  | nil => cases h
  | cons slot slots ih =>
    rw [ids_cons, List.nodup_append'] at hnodup
    obtain ⟨hslot, hslots, hdisjoint⟩ := hnodup
    cases slot with
    | none =>
      obtain ⟨inner, hinner, rfl⟩ := Option.map_eq_some_iff.mp h
      rw [List.map_cons, ← ih hslots hinner]
      rfl
    | some b =>
      rw [placeInSlots?] at h
      obtain h | ⟨hnone, h⟩ := Option.or_eq_some_iff.mp h
      · obtain ⟨inner, hinner, rfl⟩ := Option.map_eq_some_iff.mp h
        have hlater : id ∉ (mk slots).ids :=
          hdisjoint (by simpa using Block.mem_ids_of_place? hinner)
        rw [List.map_cons, map_modify_of_not_mem hlater, Option.map_some,
          ← Block.put_eq_modify b (by simpa using hslot) hinner]
        rfl
      · obtain ⟨inner, hinner, rfl⟩ := Option.map_eq_some_iff.mp h
        have hfirst : id ∉ b.ids := Block.not_mem_ids_of_place? (Option.map_eq_none_iff.mp hnone)
        rw [List.map_cons, Option.map_some, Block.modify_of_not_mem b hfirst, ← ih hslots hinner]
        rfl

/-- To change what is in the place of a block is to change the block with that id. -/
theorem put_eq_modify (hnodup : p.ids.Nodup) {place : Place Block Program}
    (h : p.place? id = some place) (f : Block → Block) :
    place.put (f place.content) = p.modify id f := by
  obtain ⟨inner, hinner, rfl⟩ := Option.map_eq_some_iff.mp h
  exact congrArg mk (putInSlots_eq_map hnodup hinner)

end Program

/-! ## Finding the place again -/

lemma Block.place?_self {c : Block} (h : c.id = id) : c.place? id = some (.all c) := by
  cases c <;> exact if_pos h

mutual

/-- After something with the identifier is put at its place, its place is the same. -/
theorem Block.place?_put (b : Block) {place : Place Block Block} (h : b.place? id = some place)
    {c : Block} (hc : c.id = id) : (place.put c).place? id = some ⟨c, place.put⟩ := by
  cases b with
  | action tag a =>
    rw [place?] at h
    split at h
    · cases h
      exact Block.place?_self hc
    · cases h
  | forLoop tag headers body =>
    rw [place?] at h
    split at h
    · cases h
      exact Block.place?_self hc
    · rename_i hid
      obtain ⟨inner, hinner, rfl⟩ := Option.map_eq_some_iff.mp h
      show (forLoop tag headers (inner.put c)).place? id = _
      rw [place?, if_neg hid, Block.placeIn?_put body hinner hc]
      rfl
  | whileLoop tag condition body =>
    rw [place?] at h
    split at h
    · cases h
      exact Block.place?_self hc
    · rename_i hid
      obtain ⟨inner, hinner, rfl⟩ := Option.map_eq_some_iff.mp h
      show (whileLoop tag condition (inner.put c)).place? id = _
      rw [place?, if_neg hid, Block.placeIn?_put body hinner hc]
      rfl
  -- The second part is searched only if the first one has no place, before and after.
  | ifElse tag condition ifPart elsePart =>
    rw [place?] at h
    split at h
    · cases h
      exact Block.place?_self hc
    · rename_i hid
      obtain h | ⟨hnone, h⟩ := Option.or_eq_some_iff.mp h
      · obtain ⟨inner, hinner, rfl⟩ := Option.map_eq_some_iff.mp h
        show (ifElse tag condition (inner.put c) elsePart).place? id = _
        rw [place?, if_neg hid, Block.placeIn?_put ifPart hinner hc]
        rfl
      · obtain ⟨inner, hinner, rfl⟩ := Option.map_eq_some_iff.mp h
        show (ifElse tag condition ifPart (inner.put c)).place? id = _
        rw [place?, if_neg hid, Option.map_eq_none_iff.mp hnone,
          Block.placeIn?_put elsePart hinner hc]
        rfl

theorem Block.placeIn?_put (bs : List Block) {place : Place Block (List Block)}
    (h : Block.placeIn? id bs = some place) {c : Block} (hc : c.id = id) :
    Block.placeIn? id (place.put c) = some ⟨c, place.put⟩ := by
  cases bs with
  | nil => cases h
  | cons b bs =>
    rw [placeIn?] at h
    obtain h | ⟨hnone, h⟩ := Option.or_eq_some_iff.mp h
    · obtain ⟨inner, hinner, rfl⟩ := Option.map_eq_some_iff.mp h
      show Block.placeIn? id (inner.put c :: bs) = _
      rw [placeIn?, Block.place?_put b hinner hc]
      rfl
    · obtain ⟨inner, hinner, rfl⟩ := Option.map_eq_some_iff.mp h
      show Block.placeIn? id (b :: inner.put c) = _
      rw [placeIn?, Option.map_eq_none_iff.mp hnone, Block.placeIn?_put bs hinner hc]
      rfl

end

namespace Program

/-- After something with the identifier is put at its place in the slots, its place is the same. -/
lemma placeInSlots?_put {slots : List (Option Block)} {place : Place Block (List (Option Block))}
    (h : placeInSlots? id slots = some place) {c : Block} (hc : c.id = id) :
    placeInSlots? id (place.put c) = some ⟨c, place.put⟩ := by
  induction slots generalizing place with
  | nil => cases h
  | cons slot slots ih =>
    cases slot with
    | none =>
      obtain ⟨inner, hinner, rfl⟩ := Option.map_eq_some_iff.mp h
      show placeInSlots? id (none :: inner.put c) = _
      rw [placeInSlots?, ih hinner]
      rfl
    | some b =>
      rw [placeInSlots?] at h
      obtain h | ⟨hnone, h⟩ := Option.or_eq_some_iff.mp h
      · obtain ⟨inner, hinner, rfl⟩ := Option.map_eq_some_iff.mp h
        show placeInSlots? id (some (inner.put c) :: slots) = _
        rw [placeInSlots?, Block.place?_put b hinner hc]
        rfl
      · obtain ⟨inner, hinner, rfl⟩ := Option.map_eq_some_iff.mp h
        show placeInSlots? id (some b :: inner.put c) = _
        rw [placeInSlots?, Option.map_eq_none_iff.mp hnone, ih hinner]
        rfl

/-- A block that was put into the place of another with its id is found there. -/
theorem place?_put {p : Program} {place : Place Block Program} (h : p.place? id = some place)
    {c : Block} (hc : c.id = id) : (place.put c).place? id = some ⟨c, place.put⟩ := by
  obtain ⟨inner, hinner, rfl⟩ := Option.map_eq_some_iff.mp h
  show (placeInSlots? id (inner.put c)).map (·.within mk) = _
  rw [placeInSlots?_put hinner hc]
  rfl

end Program

end BlockLang
