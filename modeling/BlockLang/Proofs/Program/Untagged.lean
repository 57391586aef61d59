import BlockLang.Proofs.Record.RoundTrip

/-!
# Programs without tags and gaps

A program without the ids, locks and layers of its blocks and without the gaps between them. Main
statements: two programs that are the same without these have equally many ids, and removing gaps,
raising a block, and saving and loading leave a program the same without them.
-/

namespace BlockLang

mutual

/-- The block with all tags in it blank. -/
def Block.untagged : Block → Block
  | .action _ a => .action { id := ⟨0⟩ } a
  | .forLoop _ headers body => .forLoop { id := ⟨0⟩ } headers (Block.untaggedAll body)
  | .whileLoop _ condition body => .whileLoop { id := ⟨0⟩ } condition (Block.untaggedAll body)
  | .ifElse _ condition ifPart elsePart =>
    .ifElse { id := ⟨0⟩ } condition (Block.untaggedAll ifPart) (Block.untaggedAll elsePart)

def Block.untaggedAll : List Block → List Block
  | [] => []
  | b :: bs => b.untagged :: Block.untaggedAll bs

end

/-- The blocks of a program in order, with blank tags. -/
def Program.untagged (p : Program) : List Block :=
  Block.untaggedAll p.blocks

/-! ## The same block with other tags -/

namespace Block

lemma untaggedAll_eq_map (bs : List Block) : untaggedAll bs = bs.map untagged := by
  induction bs with
  | nil => rfl
  | cons b bs ih => rw [untaggedAll, ih, List.map_cons]

variable {b c : Block} {tag : Tag} {condition : Option ConditionCode}
  {bs cs body ifPart elsePart : List Block}

/-- Without tags, an action is equal only to the same action. -/
lemma eq_action_of_untagged {a : Action} (h : c.untagged = (action tag a).untagged) :
    ∃ tag', c = action tag' a := by
  cases c with
  | action tag' a' =>
    simp only [untagged, action.injEq, true_and] at h
    exact ⟨tag', h ▸ rfl⟩
  | _ => cases h

/-- Without tags, a for loop is equal only to one with the same headers and body. -/
lemma eq_forLoop_of_untagged {headers : ForHeaders}
    (h : c.untagged = (forLoop tag headers body).untagged) :
    ∃ tag' body', c = forLoop tag' headers body' ∧ untaggedAll body' = untaggedAll body := by
  cases c with
  | forLoop tag' headers' body' =>
    simp only [untagged, forLoop.injEq, true_and] at h
    exact ⟨tag', body', h.1 ▸ rfl, h.2⟩
  | _ => cases h

/-- Without tags, a while loop is equal only to one with the same condition and body. -/
lemma eq_whileLoop_of_untagged (h : c.untagged = (whileLoop tag condition body).untagged) :
    ∃ tag' body', c = whileLoop tag' condition body' ∧ untaggedAll body' = untaggedAll body := by
  cases c with
  | whileLoop tag' condition' body' =>
    simp only [untagged, whileLoop.injEq, true_and] at h
    exact ⟨tag', body', h.1 ▸ rfl, h.2⟩
  | _ => cases h

/-- Without tags, a choice is equal only to one with the same condition and parts. -/
lemma eq_ifElse_of_untagged (h : c.untagged = (ifElse tag condition ifPart elsePart).untagged) :
    ∃ tag' ifPart' elsePart', c = ifElse tag' condition ifPart' elsePart' ∧
      untaggedAll ifPart' = untaggedAll ifPart ∧
      untaggedAll elsePart' = untaggedAll elsePart := by
  cases c with
  | ifElse tag' condition' ifPart' elsePart' =>
    simp only [untagged, ifElse.injEq, true_and] at h
    exact ⟨tag', ifPart', elsePart', h.1 ▸ rfl, h.2⟩
  | _ => cases h

lemma eq_nil_of_untaggedAll (h : untaggedAll cs = untaggedAll []) : cs = [] := by
  cases cs with
  | nil => rfl
  | cons => cases h

/-- Without tags, lists are equal block by block. -/
lemma eq_cons_of_untaggedAll (h : untaggedAll cs = untaggedAll (b :: bs)) :
    ∃ c cs', cs = c :: cs' ∧ c.untagged = b.untagged ∧ untaggedAll cs' = untaggedAll bs := by
  cases cs with
  | nil => cases h
  | cons c cs =>
    simp only [untaggedAll, List.cons.injEq] at h
    exact ⟨c, cs, rfl, h⟩

lemma untagged_withTag (b : Block) (tag : Tag) : (b.withTag tag).untagged = b.untagged := by
  cases b <;> rfl

end Block

/-! ## Ids side by side -/

mutual

lemma Block.length_ids_untagged (b : Block) : b.untagged.ids.length = b.ids.length := by
  cases b with
  | action tag a => rfl
  | forLoop tag headers body =>
    simp only [untagged, ids_forLoop, List.length_cons, Block.length_idsOf_untaggedAll body]
  | whileLoop tag condition body =>
    simp only [untagged, ids_whileLoop, List.length_cons, Block.length_idsOf_untaggedAll body]
  | ifElse tag condition ifPart elsePart =>
    simp only [untagged, ids_ifElse, List.length_cons, List.length_append,
      Block.length_idsOf_untaggedAll ifPart, Block.length_idsOf_untaggedAll elsePart]

lemma Block.length_idsOf_untaggedAll (bs : List Block) :
    (Block.idsOf (Block.untaggedAll bs)).length = (Block.idsOf bs).length := by
  cases bs with
  | nil => rfl
  | cons b bs =>
    simp only [untaggedAll, idsOf_cons, List.length_append, Block.length_ids_untagged b,
      Block.length_idsOf_untaggedAll bs]

end

namespace Block

variable {b c : Block} {bs cs : List Block}

/-- Blocks that are equal without tags have as many identifiers. -/
lemma length_ids_eq (h : c.untagged = b.untagged) : b.ids.length = c.ids.length := by
  rw [← b.length_ids_untagged, ← h, c.length_ids_untagged]

lemma length_idsOf_eq (h : untaggedAll cs = untaggedAll bs) :
    (idsOf bs).length = (idsOf cs).length := by
  rw [← Block.length_idsOf_untaggedAll bs, ← h, Block.length_idsOf_untaggedAll cs]

/-- The ids of the two blocks at the same positions. -/
def idPairs (b c : Block) : List (BlockId × BlockId) := b.ids.zip c.ids

def idPairsOf (bs cs : List Block) : List (BlockId × BlockId) := (idsOf bs).zip (idsOf cs)

lemma idPairs_forLoop (tag tag' : Tag) (headers headers' : ForHeaders) (body body' : List Block) :
    (forLoop tag headers body).idPairs (forLoop tag' headers' body') =
      (tag.id, tag'.id) :: idPairsOf body body' := by
  rw [idPairs, ids_forLoop, ids_forLoop, List.zip_cons_cons, idPairsOf]

lemma idPairs_whileLoop (tag tag' : Tag) (condition condition' : Option ConditionCode)
    (body body' : List Block) :
    (whileLoop tag condition body).idPairs (whileLoop tag' condition' body') =
      (tag.id, tag'.id) :: idPairsOf body body' := by
  rw [idPairs, ids_whileLoop, ids_whileLoop, List.zip_cons_cons, idPairsOf]

/-- The if parts have equally many ids, so the ids of the else parts are at the same positions. -/
lemma idPairs_ifElse {tag tag' : Tag} {condition condition' : Option ConditionCode}
    {ifPart ifPart' elsePart elsePart' : List Block}
    (h : untaggedAll ifPart' = untaggedAll ifPart) :
    (ifElse tag condition ifPart elsePart).idPairs (ifElse tag' condition' ifPart' elsePart') =
      (tag.id, tag'.id) :: (idPairsOf ifPart ifPart' ++ idPairsOf elsePart elsePart') := by
  rw [idPairs, ids_ifElse, ids_ifElse, List.zip_cons_cons,
    List.zip_append (length_idsOf_eq h), idPairsOf, idPairsOf]

lemma idPairsOf_cons (h : c.untagged = b.untagged) :
    idPairsOf (b :: bs) (c :: cs) = b.idPairs c ++ idPairsOf bs cs := by
  rw [idPairsOf, idsOf_cons, idsOf_cons, List.zip_append (length_ids_eq h), idPairs, idPairsOf]

/-- The two blocks themselves are the first pair. -/
lemma id_mem_idPairs (b c : Block) : (b.id, c.id) ∈ b.idPairs c := by
  rw [idPairs, ids_eq_cons, ids_eq_cons, List.zip_cons_cons]
  exact List.mem_cons_self

end Block

/-! ## Edits that leave the rest -/

mutual

/-- A block with other tags leaves what is around its place the same without tags. -/
theorem Block.untagged_put {id : BlockId} (b : Block) {place : Place Block Block}
    (h : b.place? id = some place) {c : Block} (hc : c.untagged = place.content.untagged) :
    (place.put c).untagged = b.untagged := by
  cases b with
  | action tag a =>
    rw [place?] at h
    split at h
    · cases h
      exact hc
    · cases h
  | forLoop tag headers body =>
    rw [place?] at h
    split at h
    · cases h
      exact hc
    · obtain ⟨place, hplace, rfl⟩ := Option.map_eq_some_iff.mp h
      have hbody := Block.untaggedAll_put body hplace hc
      simp only [Place.within, untagged, hbody]
  | whileLoop tag condition body =>
    rw [place?] at h
    split at h
    · cases h
      exact hc
    · obtain ⟨place, hplace, rfl⟩ := Option.map_eq_some_iff.mp h
      have hbody := Block.untaggedAll_put body hplace hc
      simp only [Place.within, untagged, hbody]
  | ifElse tag condition ifPart elsePart =>
    rw [place?] at h
    split at h
    · cases h
      exact hc
    · -- The place is in the if part, or it is in the else part.
      rcases Option.or_eq_some_iff.mp h with h | ⟨-, h⟩
      · obtain ⟨place, hplace, rfl⟩ := Option.map_eq_some_iff.mp h
        have hif := Block.untaggedAll_put ifPart hplace hc
        simp only [Place.within, untagged, hif]
      · obtain ⟨place, hplace, rfl⟩ := Option.map_eq_some_iff.mp h
        have helse := Block.untaggedAll_put elsePart hplace hc
        simp only [Place.within, untagged, helse]

/-- To put an equal block at a place changes nothing but tags. -/
theorem Block.untaggedAll_put {id : BlockId} (bs : List Block) {place : Place Block (List Block)}
    (h : Block.placeIn? id bs = some place) {c : Block}
    (hc : c.untagged = place.content.untagged) :
    Block.untaggedAll (place.put c) = Block.untaggedAll bs := by
  cases bs with
  | nil => cases h
  | cons b bs =>
    rw [placeIn?] at h
    rcases Option.or_eq_some_iff.mp h with h | ⟨-, h⟩
    · obtain ⟨place, hplace, rfl⟩ := Option.map_eq_some_iff.mp h
      have hb := Block.untagged_put b hplace hc
      simp only [Place.within, untaggedAll, hb]
    · obtain ⟨place, hplace, rfl⟩ := Option.map_eq_some_iff.mp h
      have hbs := Block.untaggedAll_put bs hplace hc
      simp only [Place.within, untaggedAll, hbs]

end

namespace Program

lemma untagged_putInSlots {id : BlockId} (slots : List (Option Block))
    {place : Place Block (List (Option Block))} (h : placeInSlots? id slots = some place)
    {c : Block} (hc : c.untagged = place.content.untagged) :
    (mk (place.put c)).untagged = (mk slots).untagged := by
  induction slots generalizing place with
  | nil => cases h
  | cons slot slots ih =>
    cases slot with
    | none =>
      obtain ⟨place, hplace, rfl⟩ := Option.map_eq_some_iff.mp h
      have hslots := ih hplace hc
      exact hslots
    | some b =>
      rw [placeInSlots?] at h
      rcases Option.or_eq_some_iff.mp h with h | ⟨-, h⟩
      · obtain ⟨place, hplace, rfl⟩ := Option.map_eq_some_iff.mp h
        have hb := b.untagged_put hplace hc
        simp only [Place.within, untagged, blocks_some, Block.untaggedAll, hb]
      · obtain ⟨place, hplace, rfl⟩ := Option.map_eq_some_iff.mp h
        have hslots := ih hplace hc
        rw [untagged, untagged] at hslots
        simp only [Place.within, untagged, blocks_some, Block.untaggedAll, hslots]

/-- To put an equal block at a place of a program changes nothing but tags. -/
lemma untagged_put {p : Program} {id : BlockId} {place : Place Block Program}
    (h : p.place? id = some place) {c : Block} (hc : c.untagged = place.content.untagged) :
    (place.put c).untagged = p.untagged := by
  obtain ⟨place, hplace, rfl⟩ := Option.map_eq_some_iff.mp h
  exact untagged_putInSlots p.slots hplace hc

/-- A new tag with the same identifier leaves all identifiers. -/
lemma ids_put_withTag {p : Program} {id : BlockId} {place : Place Block Program}
    (h : p.place? id = some place) {tag : Tag} (htag : tag.id = place.content.id) :
    (place.put (place.content.withTag tag)).ids = p.ids := by
  obtain ⟨hcontent, before, after, hids⟩ := lawful_of_place? h
  rw [hids, Block.ids_withTag htag, ← hids, hcontent]

/-- Removing gaps leaves the blocks as they are. -/
lemma blocks_compact (p : Program) : p.compact.blocks = p.blocks := by
  rw [blocks, compact, List.filterMap_filter, blocks]
  refine List.filterMap_congr fun slot _ => ?_
  cases slot <;> rfl

/-- Raising a block changes its layer and nothing else. -/
lemma untagged_moveToTop (p : Program) (id : BlockId) :
    (p.moveToTop id).2.untagged = p.untagged ∧ (p.moveToTop id).2.ids = p.ids := by
  unfold moveToTop
  split
  · exact ⟨rfl, rfl⟩
  · split
    · exact ⟨rfl, rfl⟩
    · split
      · exact ⟨rfl, rfl⟩
      · rename_i hplace
        exact ⟨untagged_put hplace (Block.untagged_withTag _ _), ids_put_withTag hplace rfl⟩

end Program

/-! ## Saving and loading -/

mutual

lemma Block.untagged_bare (b : Block) : b.bare.untagged = b.untagged := by
  cases b with
  | action tag a => cases a <;> rfl
  | forLoop tag headers body => simp only [bare, untagged, Block.untaggedAll_bareAll body]
  | whileLoop tag condition body => simp only [bare, untagged, Block.untaggedAll_bareAll body]
  | ifElse tag condition ifPart elsePart =>
    simp only [bare, untagged, Block.untaggedAll_bareAll ifPart,
      Block.untaggedAll_bareAll elsePart]

lemma Block.untaggedAll_bareAll (bs : List Block) :
    Block.untaggedAll (Block.bareAll bs) = Block.untaggedAll bs := by
  cases bs with
  | nil => rfl
  | cons b bs =>
    simp only [bareAll, untaggedAll, Block.untagged_bare b, Block.untaggedAll_bareAll bs]

end

namespace Program

/-- A program without tags and gaps is told by its bare slots. -/
lemma untagged_eq_filterMap (p : Program) :
    p.untagged = (p.slots.map (Option.map Block.bare)).filterMap (Option.map Block.untagged) := by
  rw [untagged, Block.untaggedAll_eq_map, blocks, List.map_filterMap, List.filterMap_map]
  refine List.filterMap_congr fun slot _ => ?_
  cases slot with
  | none => rfl
  | some b => exact congrArg some b.untagged_bare.symm

/-- A program that is saved and loaded again is the same without tags and gaps. -/
lemma untagged_ofRecords_records (p : Program) (supply : Supply) :
    (ofRecords p.records supply).1.untagged = p.untagged := by
  rw [untagged_eq_filterMap, bare_ofRecords_records, ← untagged_eq_filterMap]

end Program

end BlockLang
