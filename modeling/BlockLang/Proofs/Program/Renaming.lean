import BlockLang.Proofs.Program.Modify
import Mathlib.Logic.Function.Basic

/-!
# Programs with other ids

The ids of a program can be replaced by others, one for each, and its layers can be left out. Main
statements: the searches in the renamed program come to what the searches in the program come to,
and to put something into it where a search ends is to put it into the program.
-/

namespace BlockLang

/-! ## Renaming -/

variable {ρ : BlockId → BlockId}

/-- The tag with another id and without its layer. -/
def Tag.renamed (ρ : BlockId → BlockId) (tag : Tag) : Tag :=
  { id := ρ tag.id, locked := tag.locked }

mutual

/-- The block with other ids and without layers. -/
def Block.renamed (ρ : BlockId → BlockId) : Block → Block
  | .action tag a => .action (tag.renamed ρ) a
  | .forLoop tag headers body => .forLoop (tag.renamed ρ) headers (Block.renamedAll ρ body)
  | .whileLoop tag condition body =>
    .whileLoop (tag.renamed ρ) condition (Block.renamedAll ρ body)
  | .ifElse tag condition ifPart elsePart =>
    .ifElse (tag.renamed ρ) condition (Block.renamedAll ρ ifPart) (Block.renamedAll ρ elsePart)

def Block.renamedAll (ρ : BlockId → BlockId) : List Block → List Block
  | [] => []
  | b :: bs => b.renamed ρ :: Block.renamedAll ρ bs

end

def Program.renamed (ρ : BlockId → BlockId) (p : Program) : Program :=
  ⟨p.slots.map (Option.map (Block.renamed ρ))⟩

def Container.renamed (ρ : BlockId → BlockId) : Container → Container
  | .program => .program
  | .part block list => .part (ρ block) list

def Location.renamed (ρ : BlockId → BlockId) (l : Location) : Location :=
  ⟨l.container.renamed ρ, l.index⟩

/-- The second block is the first with other ids and perhaps other layers. -/
def Block.RenamesTo (ρ : BlockId → BlockId) (b c : Block) : Prop :=
  c.renamed (fun id => id) = b.renamed ρ

/-- The second program is the first with other ids and perhaps other layers. -/
def Program.RenamesTo (ρ : BlockId → BlockId) (p q : Program) : Prop :=
  q.renamed (fun id => id) = p.renamed ρ

/-- Containers are told apart after renaming as before. -/
lemma Container.renamed_inj (hρ : Function.Injective ρ) {c d : Container} :
    c.renamed ρ = d.renamed ρ ↔ c = d := by
  cases c <;> cases d <;> simp [renamed, hρ.eq_iff]

lemma Tag.id_renamed_eq_iff (hρ : Function.Injective ρ) (tag : Tag) (id : BlockId) :
    (tag.renamed ρ).id = ρ id ↔ tag.id = id :=
  hρ.eq_iff

namespace Block

lemma renamedAll_eq_map (bs : List Block) : renamedAll ρ bs = bs.map (renamed ρ) := by
  induction bs with
  | nil => rfl
  | cons b bs ih => rw [renamedAll, ih, List.map_cons]

@[simp] lemma tag_renamed (b : Block) : (b.renamed ρ).tag = b.tag.renamed ρ := by
  cases b <;> rfl

@[simp] lemma id_renamed (b : Block) : (b.renamed ρ).id = ρ b.id :=
  congrArg Tag.id b.tag_renamed

@[simp] lemma locked_renamed (b : Block) : (b.renamed ρ).locked = b.locked := by
  cases b <;> rfl

@[simp] lemma compoundKind?_renamed (b : Block) :
    (b.renamed ρ).compoundKind? = b.compoundKind? := by
  cases b <;> rfl

/-- A part of a renamed block is the renamed part. -/
@[simp] lemma part?_renamed (b : Block) (part : Part) :
    (b.renamed ρ).part? part = (b.part? part).map (renamedAll ρ) := by
  cases b <;> cases part <;> rfl

/-- To set a part and to rename can be done in either order. -/
@[simp] lemma renamed_setPart (b : Block) (part : Part) (bs : List Block) :
    (b.setPart part bs).renamed ρ = (b.renamed ρ).setPart part (renamedAll ρ bs) := by
  cases b <;> cases part <;> rfl

/-- A layer is left out. -/
lemma renamed_withTag (b : Block) (tag : Tag) :
    (b.withTag tag).renamed ρ = (b.renamed ρ).withTag (tag.renamed ρ) := by
  cases b <;> rfl

@[simp] lemma header?_renamed (b : Block) (kind : HeaderKind) :
    (b.renamed ρ).header? kind = b.header? kind := by
  cases b <;> cases kind <;> rfl

@[simp] lemma renamed_setHeader (b : Block) (header : Header) :
    (b.renamed ρ).setHeader header = (b.setHeader header).renamed ρ := by
  cases b <;> cases header <;> rfl

@[simp] lemma renamed_clearHeader (b : Block) (kind : HeaderKind) :
    (b.renamed ρ).clearHeader kind = (b.clearHeader kind).renamed ρ := by
  cases b <;> cases kind <;> rfl

/-- A renamed block takes the same headers. -/
lemma attach_renamed (b : Block) (header : Header) :
    (b.renamed ρ).attach header = (b.attach header).map (renamed ρ) := by
  have hpermits : (b.renamed ρ).permits header.kind = b.permits header.kind := by
    rw [permits, compoundKind?_renamed, permits]
  rw [attach, attach, hpermits, header?_renamed, renamed_setHeader]
  split
  · rfl
  · split <;> rfl

end Block

/-! ### Renaming twice -/

lemma Tag.renamed_renamed (σ : BlockId → BlockId) (tag : Tag) :
    (tag.renamed ρ).renamed σ = tag.renamed (σ ∘ ρ) := rfl

mutual

/-- To rename twice is to rename once. -/
lemma Block.renamed_renamed (σ : BlockId → BlockId) (b : Block) :
    (b.renamed ρ).renamed σ = b.renamed (σ ∘ ρ) := by
  cases b with
  | action tag a => rfl
  | forLoop tag headers body =>
    simp only [renamed, Tag.renamed_renamed, Block.renamedAll_renamedAll σ body]
  | whileLoop tag condition body =>
    simp only [renamed, Tag.renamed_renamed, Block.renamedAll_renamedAll σ body]
  | ifElse tag condition ifPart elsePart =>
    simp only [renamed, Tag.renamed_renamed, Block.renamedAll_renamedAll σ ifPart,
      Block.renamedAll_renamedAll σ elsePart]

lemma Block.renamedAll_renamedAll (σ : BlockId → BlockId) (bs : List Block) :
    Block.renamedAll σ (Block.renamedAll ρ bs) = Block.renamedAll (σ ∘ ρ) bs := by
  cases bs with
  | nil => rfl
  | cons b bs =>
    simp only [renamedAll, Block.renamed_renamed σ b, Block.renamedAll_renamedAll σ bs]

end

/-- A block and its renaming differ in nothing but the identifiers. -/
lemma Block.renamesTo_renamed (b : Block) : b.RenamesTo ρ (b.renamed ρ) :=
  b.renamed_renamed fun id => id

lemma Program.renamesTo_renamed (p : Program) : p.RenamesTo ρ (p.renamed ρ) := by
  refine congrArg mk ((List.map_map ..).trans (List.map_congr_left fun slot _ => ?_))
  cases slot with
  | none => rfl
  | some b => exact congrArg some b.renamesTo_renamed

/-! ## Finding -/

mutual

/-- The family of a renamed block is the renamed family. -/
theorem Block.family_renamed (b : Block) : (b.renamed ρ).family = b.family.map (renamed ρ) := by
  cases b with
  | action tag a => rfl
  | forLoop tag headers body =>
    simp only [renamed, family, List.map_cons, Block.families_renamedAll body]
  | whileLoop tag condition body =>
    simp only [renamed, family, List.map_cons, Block.families_renamedAll body]
  | ifElse tag condition ifPart elsePart =>
    simp only [renamed, family, List.map_cons, List.map_append, Block.families_renamedAll ifPart,
      Block.families_renamedAll elsePart]

theorem Block.families_renamedAll (bs : List Block) :
    Block.families (Block.renamedAll ρ bs) = (Block.families bs).map (Block.renamed ρ) := by
  cases bs with
  | nil => rfl
  | cons b bs =>
    simp only [renamedAll, families, List.map_append, Block.family_renamed b,
      Block.families_renamedAll bs]

end

namespace Program

/-- The blocks of a renamed program are the renamed blocks. -/
@[simp] lemma blocks_renamed (p : Program) :
    (p.renamed ρ).blocks = Block.renamedAll ρ p.blocks := by
  rw [Block.renamedAll_eq_map, blocks, blocks, renamed, List.filterMap_map, List.map_filterMap]
  refine List.filterMap_congr fun slot _ => ?_
  cases slot <;> rfl

/-- The renamed identifier finds the renamed block. -/
lemma find?_renamed (hρ : Function.Injective ρ) (p : Program) (id : BlockId) :
    (p.renamed ρ).find? (ρ id) = (p.find? id).map (Block.renamed ρ) := by
  rw [find?_eq, family, blocks_renamed, Block.families_renamedAll, List.find?_map, find?_eq, family]
  refine congrArg (fun found => Option.map _ (List.find? found _)) (funext fun b => ?_)
  simp [hρ.eq_iff]

end Program

/-! ## Locating -/

mutual

/-- The renamed identifier has the renamed place in a block. -/
theorem Block.locate?_renamed (hρ : Function.Injective ρ) (id : BlockId) (b : Block) :
    (b.renamed ρ).locate? (ρ id) = (b.locate? id).map (Location.renamed ρ) := by
  cases b with
  | action tag a => rfl
  | forLoop tag headers body =>
    rw [renamed, locate?, locate?]
    exact Block.locateIn?_renamed hρ id (.part tag.id .body) 0 body
  | whileLoop tag condition body =>
    rw [renamed, locate?, locate?]
    exact Block.locateIn?_renamed hρ id (.part tag.id .body) 0 body
  | ifElse tag condition ifPart elsePart =>
    have hif := Block.locateIn?_renamed hρ id (.part tag.id .ifPart) 0 ifPart
    have helse := Block.locateIn?_renamed hρ id (.part tag.id .elsePart) 0 elsePart
    rw [renamed, locate?, locate?, Option.map_or, ← hif, ← helse]
    rfl

theorem Block.locateIn?_renamed (hρ : Function.Injective ρ) (id : BlockId) (container : Container)
    (index : Nat) (bs : List Block) :
    Block.locateIn? (ρ id) (container.renamed ρ) index (Block.renamedAll ρ bs) =
      (Block.locateIn? id container index bs).map (Location.renamed ρ) := by
  cases bs with
  | nil => rfl
  | cons b bs =>
    have hb := Block.locate?_renamed hρ id b
    have hbs := Block.locateIn?_renamed hρ id container (index + 1) bs
    simp only [renamedAll, locateIn?, id_renamed, hρ.eq_iff, hb, hbs]
    split
    · rfl
    · rw [Option.map_or]

end

namespace Program

/-- The renamed identifier has the renamed place in the slots. -/
lemma locateFrom?_renamed (hρ : Function.Injective ρ) (id : BlockId) (index : Nat)
    (slots : List (Option Block)) :
    locateFrom? (ρ id) index (slots.map (Option.map (Block.renamed ρ))) =
      (locateFrom? id index slots).map (Location.renamed ρ) := by
  induction slots generalizing index with
  | nil => rfl
  | cons slot slots ih =>
    cases slot with
    | none => exact ih (index + 1)
    | some b =>
      simp only [List.map_cons, Option.map_some, locateFrom?, Block.id_renamed, hρ.eq_iff,
        Block.locate?_renamed hρ id b, ih]
      split
      · rfl
      · rw [Option.map_or]

/-- The renamed identifier has the renamed place in the program. -/
lemma locate?_renamed (hρ : Function.Injective ρ) (p : Program) (id : BlockId) :
    (p.renamed ρ).locate? (ρ id) = (p.locate? id).map (Location.renamed ρ) :=
  locateFrom?_renamed hρ id 0 p.slots

end Program

/-! ## Changing -/

/-- What is at the second place is what is at the first with other ids, and so are the wholes when
this holds for what is put there. -/
structure Place.RenamesTo {α β : Type} (rename : (BlockId → BlockId) → α → α)
    (renameWhole : (BlockId → BlockId) → β → β) (ρ : BlockId → BlockId)
    (place place' : Place α β) : Prop where
  content : place'.content = rename ρ place.content
  put : ∀ a a', rename (fun id => id) a' = rename ρ a →
    renameWhole (fun id => id) (place'.put a') = renameWhole ρ (place.put a)

section

variable {α β γ : Type} {rename : (BlockId → BlockId) → α → α}
  {renameWhole : (BlockId → BlockId) → β → β} {renameMore : (BlockId → BlockId) → γ → γ}

lemma Place.renamesTo_all (a : α) : RenamesTo rename rename ρ (.all a) (.all (rename ρ a)) :=
  ⟨rfl, fun _ _ h => h⟩

/-- Renamed places stay so when the wholes become parts of larger ones. -/
lemma rel_renamesTo_within {place place' : Option (Place α β)}
    (h : Option.Rel (Place.RenamesTo rename renameWhole ρ) place place') {wrap wrap' : β → γ}
    (hwrap : ∀ b b', renameWhole (fun id => id) b' = renameWhole ρ b →
      renameMore (fun id => id) (wrap' b') = renameMore ρ (wrap b)) :
    Option.Rel (Place.RenamesTo rename renameMore ρ) (place.map (·.within wrap))
      (place'.map (·.within wrap')) := by
  cases h with
  | none => exact .none
  | some h => exact .some ⟨h.content, fun a a' ha => hwrap _ _ (h.put a a' ha)⟩

end

mutual

/-- The place of a renamed identifier in a block is the renamed place. -/
theorem Block.place?_renamed (hρ : Function.Injective ρ) (id : BlockId) (b : Block) :
    Option.Rel (Place.RenamesTo renamed renamed ρ) (b.place? id) ((b.renamed ρ).place? (ρ id)) := by
  cases b with
  | action tag a =>
    simp only [renamed, place?, tag.id_renamed_eq_iff hρ]
    split
    · exact .some (Place.renamesTo_all _)
    · exact .none
  | forLoop tag headers body =>
    simp only [renamed, place?, tag.id_renamed_eq_iff hρ]
    split
    · exact .some (Place.renamesTo_all _)
    · refine rel_renamesTo_within (Block.placeIn?_renamed hρ id body) fun bs cs h => ?_
      rw [renamed, renamed, h]
      rfl
  | whileLoop tag condition body =>
    simp only [renamed, place?, tag.id_renamed_eq_iff hρ]
    split
    · exact .some (Place.renamesTo_all _)
    · refine rel_renamesTo_within (Block.placeIn?_renamed hρ id body) fun bs cs h => ?_
      rw [renamed, renamed, h]
      rfl
  | ifElse tag condition ifPart elsePart =>
    simp only [renamed, place?, tag.id_renamed_eq_iff hρ]
    split
    · exact .some (Place.renamesTo_all _)
    · refine rel_or ?_ ?_
      · refine rel_renamesTo_within (Block.placeIn?_renamed hρ id ifPart) fun bs cs h => ?_
        rw [renamed, renamed, h, renamedAll_renamedAll]
        rfl
      · refine rel_renamesTo_within (Block.placeIn?_renamed hρ id elsePart) fun bs cs h => ?_
        rw [renamed, renamed, h, renamedAll_renamedAll]
        rfl

theorem Block.placeIn?_renamed (hρ : Function.Injective ρ) (id : BlockId) (bs : List Block) :
    Option.Rel (Place.RenamesTo renamed renamedAll ρ) (Block.placeIn? id bs)
      (Block.placeIn? (ρ id) (Block.renamedAll ρ bs)) := by
  cases bs with
  | nil => exact .none
  | cons b bs =>
    rw [renamedAll, placeIn?, placeIn?]
    refine rel_or ?_ ?_
    · refine rel_renamesTo_within (Block.place?_renamed hρ id b) fun c d h => ?_
      rw [renamedAll, renamedAll, h, renamedAll_renamedAll]
      rfl
    · refine rel_renamesTo_within (Block.placeIn?_renamed hρ id bs) fun cs ds h => ?_
      rw [renamedAll, renamedAll, h, renamed_renamed]
      rfl

end

namespace Program

/-- The slots with other ids and without layers. -/
def renamedSlots (ρ : BlockId → BlockId) (slots : List (Option Block)) : List (Option Block) :=
  slots.map (Option.map (Block.renamed ρ))

/-- The place of a renamed identifier in the slots is the renamed place. -/
lemma placeInSlots?_renamed (hρ : Function.Injective ρ) (id : BlockId)
    (slots : List (Option Block)) :
    Option.Rel (Place.RenamesTo Block.renamed renamedSlots ρ) (placeInSlots? id slots)
      (placeInSlots? (ρ id) (renamedSlots ρ slots)) := by
  induction slots with
  | nil => exact .none
  | cons slot slots ih =>
    cases slot with
    | none =>
      exact rel_renamesTo_within ih fun slots slots' h => congrArg (none :: ·) h
    | some b =>
      refine rel_or ?_ ?_
      · refine rel_renamesTo_within (b.place?_renamed hρ id) fun c d h => ?_
        have hslots : (mk slots).RenamesTo ρ ((mk slots).renamed ρ) := renamesTo_renamed _
        exact congrArg₂ (some · :: ·) h (congrArg Program.slots hslots)
      · refine rel_renamesTo_within ih fun slots slots' h => ?_
        exact congrArg₂ (some · :: ·) b.renamesTo_renamed h

/-- A change to a block of the program and the same change to the block of the renamed program are
the same up to ids and layers. -/
theorem place?_renamed (hρ : Function.Injective ρ) (p : Program) (id : BlockId) :
    Option.Rel (Place.RenamesTo Block.renamed renamed ρ) (p.place? id)
      ((p.renamed ρ).place? (ρ id)) :=
  rel_renamesTo_within (placeInSlots?_renamed hρ id p.slots) fun _ _ h => congrArg mk h

end Program

end BlockLang
