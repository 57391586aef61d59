import BlockLang.Program.Edit
import Mathlib.Tactic.Lemma

/-!
# Looking blocks up

A block of a program is found, located and given its place by separate recursions. Main statements:
all of them come to the same block, the first with the id among all blocks, and to put something
else in its place changes nothing around it.
-/

namespace BlockLang

/-! ## Ids -/

namespace Block

/-- The ids of a block and of all blocks inside it. -/
def ids (b : Block) : List BlockId := b.family.map id

/-- The ids of all blocks of a list and inside it. -/
def idsOf (bs : List Block) : List BlockId := (families bs).map id

lemma families_append (bs cs : List Block) :
    families (bs ++ cs) = families bs ++ families cs := by
  induction bs with
  | nil => rfl
  | cons b bs ih => rw [List.cons_append, families, ih, families, List.append_assoc]

@[simp] lemma idsOf_nil : idsOf [] = [] := rfl

@[simp] lemma idsOf_cons (b : Block) (bs : List Block) : idsOf (b :: bs) = b.ids ++ idsOf bs := by
  rw [idsOf, families, List.map_append, ids, idsOf]

@[simp] lemma idsOf_append (bs cs : List Block) : idsOf (bs ++ cs) = idsOf bs ++ idsOf cs := by
  rw [idsOf, families_append, List.map_append, idsOf, idsOf]

/-- A block comes before those inside it. -/
lemma family_eq_cons (b : Block) :
    b.family = b :: families (b.parts.flatMap Prod.snd) := by
  cases b with
  | action => rfl
  | forLoop tag headers body => simp [family, parts]
  | whileLoop tag condition body => simp [family, parts]
  | ifElse tag condition ifPart elsePart => simp [family, parts, families_append]

/-- The identifiers of a block are its own and those of the blocks in its parts. -/
lemma ids_eq_cons (b : Block) : b.ids = b.id :: idsOf (b.parts.flatMap Prod.snd) := by
  rw [ids, family_eq_cons, List.map_cons, idsOf]

@[simp] lemma ids_forLoop (tag : Tag) (headers : ForHeaders) (body : List Block) :
    (forLoop tag headers body).ids = tag.id :: idsOf body := by
  rw [ids, family, List.map_cons, idsOf, id, Block.tag]

@[simp] lemma ids_whileLoop (tag : Tag) (condition : Option ConditionCode) (body : List Block) :
    (whileLoop tag condition body).ids = tag.id :: idsOf body := by
  rw [ids, family, List.map_cons, idsOf, id, Block.tag]

@[simp] lemma ids_ifElse (tag : Tag) (condition : Option ConditionCode)
    (ifPart elsePart : List Block) :
    (ifElse tag condition ifPart elsePart).ids = tag.id :: (idsOf ifPart ++ idsOf elsePart) := by
  rw [ids, family, List.map_cons, List.map_append, idsOf, idsOf, id, Block.tag]

lemma mem_family_self (b : Block) : b ∈ b.family := by
  rw [family_eq_cons]
  exact List.mem_cons_self

end Block

/-- The ids of all blocks of a program. -/
def Program.ids (p : Program) : List BlockId := Block.idsOf p.blocks

/-! ## Finding -/

mutual

/-- A search in a block finds the first one of its family with the identifier. -/
theorem Block.find?_eq (id : BlockId) (b : Block) :
    b.find? id = b.family.find? (·.id = id) := by
  cases b with
  | action tag a =>
    by_cases h : tag.id = id
    · simp [find?, family, Block.id, Block.tag, h]
    · simp [find?, family, Block.id, Block.tag, h]
  | forLoop tag headers body =>
    rw [find?, family, List.find?_cons, Block.findIn?_eq id body]
    by_cases h : tag.id = id <;> simp [Block.id, Block.tag, h]
  | whileLoop tag condition body =>
    rw [find?, family, List.find?_cons, Block.findIn?_eq id body]
    by_cases h : tag.id = id <;> simp [Block.id, Block.tag, h]
  | ifElse tag condition ifPart elsePart =>
    rw [find?, family, List.find?_cons, List.find?_append, Block.findIn?_eq id ifPart,
      Block.findIn?_eq id elsePart]
    by_cases h : tag.id = id <;> simp [Block.id, Block.tag, h]

/-- A search in a list finds the first one of its families with the identifier. -/
theorem Block.findIn?_eq (id : BlockId) (bs : List Block) :
    Block.findIn? id bs = (Block.families bs).find? (·.id = id) := by
  cases bs with
  | nil => rfl
  | cons b bs =>
    rw [findIn?, families, List.find?_append, Block.find?_eq id b, Block.findIn?_eq id bs]

end

lemma Block.find?_self {id : BlockId} (b : Block) (h : b.id = id) : b.find? id = some b := by
  rw [Block.find?_eq, family_eq_cons, List.find?_cons_of_pos (by simpa using h)]

/-- Finding a block is looking for it among all blocks. -/
theorem Program.find?_eq (p : Program) (id : BlockId) :
    p.find? id = p.family.find? (·.id = id) :=
  Block.findIn?_eq id p.blocks

/-! ## Searches that agree -/

section Searches

variable {α β : Type} {R S : α → β → Prop} {a a' : Option α} {b b' : Option β}

/-- Two searches agree if both their first parts and their second parts do. -/
lemma rel_or (h : Option.Rel R a b) (h' : Option.Rel R a' b') :
    Option.Rel R (a.or a') (b.or b') := by
  cases h with
  | some h => exact .some h
  | none => exact h'

/-- Two options that are related are related in every weaker way. -/
lemma rel_mono (h : Option.Rel R a b) (hsub : ∀ x y, R x y → S x y) : Option.Rel S a b := by
  cases h with
  | some h => exact .some (hsub _ _ h)
  | none => exact .none

/-- If the first of two related options is there, the second is. -/
lemma exists_of_rel {x : α} (h : Option.Rel R a b) (hx : a = some x) :
    ∃ y, b = some y ∧ R x y := by
  subst hx
  cases h with
  | some h => exact ⟨_, rfl, h⟩

/-- Two related options are both there or both missing. -/
lemma isSome_eq_of_rel (h : Option.Rel R a b) : a.isSome = b.isSome := by
  cases h with
  | some h => rfl
  | none => rfl

/-- If related values give the same under a function, so do related options. -/
lemma map_eq_of_rel {f : α → β} (h : Option.Rel R a b) (hf : ∀ x y, R x y → f x = y) :
    a.map f = b := by
  cases h with
  | some h => exact congrArg some (hf _ _ h)
  | none => rfl

end Searches

/-! ## Locating -/

namespace Block

/-- The block stands at the location, in a part of one of the holders. -/
def StandsIn (holders : List Block) (l : Location) (b : Block) : Prop :=
  ∃ holder ∈ holders, ∃ part bs, l.container = .part holder.id part ∧
    holder.part? part = some bs ∧ bs[l.index]? = some b

/-- The block stands at the location, in a list that begins at `index` of the container or inside a
block of it. -/
def StandsFrom (container : Container) (index : Nat) (bs : List Block) (l : Location)
    (b : Block) : Prop :=
  (∃ k, l = ⟨container, index + k⟩ ∧ bs[k]? = some b) ∨ StandsIn (families bs) l b

/-- A place in a family is a place in every larger one. -/
lemma StandsIn.mono {holders more : List Block} {l : Location} {b : Block}
    (h : StandsIn holders l b) (hsub : holders ⊆ more) : StandsIn more l b := by
  obtain ⟨holder, hmem, hplace⟩ := h
  exact ⟨holder, hsub hmem, hplace⟩

/-- What stands in a part of a block stands in the block. -/
lemma StandsFrom.standsIn (b : Block) {c : Block} {part : Part} {bs : List Block} {l : Location}
    (h : StandsFrom (.part b.id part) 0 bs l c) (hpart : b.part? part = some bs)
    (hsub : families bs ⊆ b.family) : StandsIn b.family l c := by
  rcases h with ⟨k, rfl, hk⟩ | h
  · rw [Nat.zero_add]
    exact ⟨b, b.mem_family_self, part, bs, rfl, hpart, hk⟩
  · exact h.mono hsub

end Block

mutual

/-- The place of an identifier inside a block is where the block that is found stands. -/
theorem Block.locate?_rel {id : BlockId} (b : Block) (h : b.id ≠ id) :
    Option.Rel (StandsIn b.family) (b.locate? id) (b.find? id) := by
  cases b with
  | action tag a =>
    have hid : tag.id ≠ id := h
    rw [locate?, find?, if_neg hid]
    exact .none
  | forLoop tag headers body =>
    have hid : tag.id ≠ id := h
    rw [locate?, find?, if_neg hid]
    refine rel_mono (Block.locateIn?_rel id body _ 0) fun l c hc => ?_
    exact StandsFrom.standsIn (.forLoop tag headers body) hc rfl
      (List.subset_cons_self _ _)
  | whileLoop tag condition body =>
    have hid : tag.id ≠ id := h
    rw [locate?, find?, if_neg hid]
    refine rel_mono (Block.locateIn?_rel id body _ 0) fun l c hc => ?_
    exact StandsFrom.standsIn (.whileLoop tag condition body) hc rfl
      (List.subset_cons_self _ _)
  | ifElse tag condition ifPart elsePart =>
    have hid : tag.id ≠ id := h
    rw [locate?, find?, if_neg hid]
    refine rel_or ?_ ?_
    -- Each part is a container of its own, and the if part comes first in both searches.
    · refine rel_mono (Block.locateIn?_rel id ifPart _ 0) fun l c hc => ?_
      exact StandsFrom.standsIn (.ifElse tag condition ifPart elsePart) hc rfl
        (List.subset_cons_of_subset _ (List.subset_append_left _ _))
    · refine rel_mono (Block.locateIn?_rel id elsePart _ 0) fun l c hc => ?_
      exact StandsFrom.standsIn (.ifElse tag condition ifPart elsePart) hc rfl
        (List.subset_cons_of_subset _ (List.subset_append_right _ _))

/-- The place of an identifier in a list is where the block that is found stands. -/
theorem Block.locateIn?_rel (id : BlockId) (bs : List Block) (container : Container)
    (index : Nat) :
    Option.Rel (StandsFrom container index bs) (Block.locateIn? id container index bs)
      (Block.findIn? id bs) := by
  cases bs with
  | nil => exact .none
  | cons b bs =>
    rw [locateIn?, findIn?]
    split
    · rename_i h
      rw [b.find?_self h]
      exact .some (.inl ⟨0, rfl, rfl⟩)
    · rename_i h
      -- Both searches go into the first block before they go on to the next one.
      refine rel_or ?_ ?_
      · refine rel_mono (Block.locate?_rel b h) fun l c hc => .inr (hc.mono ?_)
        exact List.subset_append_left _ _
      · refine rel_mono (Block.locateIn?_rel id bs container (index + 1)) fun l c hc => ?_
        rcases hc with ⟨k, rfl, hk⟩ | hc
        · exact .inl ⟨k + 1, by rw [Nat.add_assoc, Nat.add_comm 1], hk⟩
        · exact .inr (hc.mono (List.subset_append_right _ _))

end

namespace Program

@[simp] lemma blocks_some (b : Block) (slots : List (Option Block)) :
    (mk (some b :: slots)).blocks = b :: (mk slots).blocks := rfl

/-- The block stands at the location in slots that begin at `index`, or inside a block in a slot. -/
def StandsFrom (index : Nat) (slots : List (Option Block)) (l : Location) (b : Block) : Prop :=
  (∃ k, l = ⟨.program, index + k⟩ ∧ slots[k]? = some (some b)) ∨
    Block.StandsIn (mk slots).family l b

/-- With one more slot in front, a place is counted from one less. -/
lemma StandsFrom.cons {index : Nat} {slots : List (Option Block)} {l : Location} {b : Block}
    (h : StandsFrom (index + 1) slots l b) (slot : Option Block) :
    StandsFrom index (slot :: slots) l b := by
  rcases h with ⟨k, rfl, hk⟩ | h
  · exact .inl ⟨k + 1, by rw [Nat.add_assoc, Nat.add_comm 1], hk⟩
  · cases slot with
    | none => exact .inr h
    | some c => exact .inr (h.mono (List.subset_append_right _ _))

/-- The place of an identifier in the slots is where the block that is found stands. -/
theorem locateFrom?_rel (id : BlockId) (index : Nat) (slots : List (Option Block)) :
    Option.Rel (StandsFrom index slots) (locateFrom? id index slots)
      (Block.findIn? id (mk slots).blocks) := by
  induction slots generalizing index with
  | nil => exact .none
  | cons slot slots ih =>
    have hlater := rel_mono (ih (index + 1)) fun l c hc => hc.cons slot
    cases slot with
    | none => exact hlater
    | some b =>
      rw [locateFrom?, blocks_some, Block.findIn?]
      split
      · rename_i h
        rw [b.find?_self h]
        exact .some (.inl ⟨0, rfl, rfl⟩)
      · rename_i h
        refine rel_or (rel_mono (b.locate?_rel h) fun l c hc => .inr (hc.mono ?_)) hlater
        exact List.subset_append_left _ _

/-- The block stands at the location. -/
def StandsAt (p : Program) (l : Location) (b : Block) : Prop :=
  (l.container = .program ∧ p.slots[l.index]? = some (some b)) ∨ Block.StandsIn p.family l b

/-- To locate a block is to find it and to say where it stands. -/
theorem locate?_rel (p : Program) (id : BlockId) :
    Option.Rel p.StandsAt (p.locate? id) (p.find? id) := by
  refine rel_mono (locateFrom?_rel id 0 p.slots) fun l b hb => ?_
  rcases hb with ⟨k, rfl, hk⟩ | hb
  · rw [Nat.zero_add]
    exact .inl ⟨rfl, hk⟩
  · exact .inr hb

end Program

/-! ## Places -/

namespace Place

variable {α β γ : Type} {place : Place α β}

/-- The place is one in `whole`, and what is put there leaves the ids around it as they are. -/
structure Lawful (ids : α → List BlockId) (idsOf : β → List BlockId) (whole : β)
    (place : Place α β) : Prop where
  put_content : place.put place.content = whole
  ids_put : ∃ before after, ∀ a, idsOf (place.put a) = before ++ ids a ++ after

variable {ids : α → List BlockId} {idsOf : β → List BlockId} {idsOf' : γ → List BlockId} {whole : β}

/-- The whole is a place of itself. -/
lemma lawful_all (a : α) : (all a).Lawful ids ids a :=
  ⟨rfl, [], [], fun b => by simp [all]⟩

/-- A lawful place stays one inside a larger whole. -/
lemma Lawful.within (h : place.Lawful ids idsOf whole) {wrap : β → γ}
    (hwrap : ∃ before after, ∀ b, idsOf' (wrap b) = before ++ idsOf b ++ after) :
    (place.within wrap).Lawful ids idsOf' (wrap whole) where
  put_content := congrArg wrap h.put_content
  ids_put := by
    obtain ⟨before, after, hput⟩ := h.ids_put
    obtain ⟨outer, rest, hwrap⟩ := hwrap
    refine ⟨outer ++ before, after ++ rest, fun a => ?_⟩
    show idsOf' (wrap (place.put a)) = _
    rw [hwrap, hput]
    simp only [List.append_assoc]

end Place

/-- A search for a place agrees with a search for its content also in a larger whole. -/
lemma rel_within {α β γ : Type} {ids : α → List BlockId} {idsOf : β → List BlockId}
    {idsOf' : γ → List BlockId} {whole : β} {place : Option (Place α β)} {found : Option α}
    (wrap : β → γ)
    (h : Option.Rel (fun place a => place.content = a ∧ place.Lawful ids idsOf whole) place found)
    (hwrap : ∃ before after, ∀ b, idsOf' (wrap b) = before ++ idsOf b ++ after) :
    Option.Rel (fun place a => place.content = a ∧ place.Lawful ids idsOf' (wrap whole))
      (place.map (·.within wrap)) found := by
  cases h with
  | some h => exact .some ⟨h.1, h.2.within hwrap⟩
  | none => exact .none

mutual

/-- The place of an identifier in a block is lawful and holds the block that is found. -/
theorem Block.place?_rel (id : BlockId) (b : Block) :
    Option.Rel (fun place c => place.content = c ∧ place.Lawful ids ids b) (b.place? id)
      (b.find? id) := by
  cases b with
  | action tag a =>
    rw [place?, find?]
    split
    · exact .some ⟨rfl, Place.lawful_all _⟩
    · exact .none
  | forLoop tag headers body =>
    rw [place?, find?]
    split
    · exact .some ⟨rfl, Place.lawful_all _⟩
    · exact rel_within (forLoop tag headers) (Block.placeIn?_rel id body)
        ⟨[tag.id], [], fun bs => by simp⟩
  | whileLoop tag condition body =>
    rw [place?, find?]
    split
    · exact .some ⟨rfl, Place.lawful_all _⟩
    · exact rel_within (whileLoop tag condition) (Block.placeIn?_rel id body)
        ⟨[tag.id], [], fun bs => by simp⟩
  | ifElse tag condition ifPart elsePart =>
    rw [place?, find?]
    split
    · exact .some ⟨rfl, Place.lawful_all _⟩
    · -- What is put into one part leaves the ids of the other on its side.
      refine rel_or ?_ ?_
      · exact rel_within (ifElse tag condition · elsePart) (Block.placeIn?_rel id ifPart)
          ⟨[tag.id], idsOf elsePart, fun bs => by simp⟩
      · exact rel_within (ifElse tag condition ifPart) (Block.placeIn?_rel id elsePart)
          ⟨tag.id :: idsOf ifPart, [], fun bs => by simp⟩

/-- The place of an identifier in a list is lawful and holds the block that is found. -/
theorem Block.placeIn?_rel (id : BlockId) (bs : List Block) :
    Option.Rel (fun place c => place.content = c ∧ place.Lawful ids idsOf bs)
      (Block.placeIn? id bs) (Block.findIn? id bs) := by
  cases bs with
  | nil => exact .none
  | cons b bs =>
    rw [placeIn?, findIn?]
    refine rel_or ?_ ?_
    · exact rel_within (· :: bs) (Block.place?_rel id b)
        ⟨[], idsOf bs, fun c => by simp⟩
    · exact rel_within (b :: ·) (Block.placeIn?_rel id bs) ⟨b.ids, [], fun cs => by simp⟩

end

namespace Program

@[simp] lemma ids_none (slots : List (Option Block)) :
    (mk (none :: slots)).ids = (mk slots).ids := rfl

@[simp] lemma ids_some (b : Block) (slots : List (Option Block)) :
    (mk (some b :: slots)).ids = b.ids ++ (mk slots).ids := by
  rw [ids, blocks_some, Block.idsOf_cons, ids]

lemma ids_cons (slot : Option Block) (slots : List (Option Block)) :
    (mk (slot :: slots)).ids = Block.idsOf slot.toList ++ (mk slots).ids := by
  cases slot with
  | none => rfl
  | some b => simp

/-- The place of an identifier in the slots is lawful and holds the block that is found. -/
theorem placeInSlots?_rel (id : BlockId) (slots : List (Option Block)) :
    Option.Rel (fun place b => place.content = b ∧
        place.Lawful Block.ids (fun slots => (mk slots).ids) slots)
      (placeInSlots? id slots) (Block.findIn? id (mk slots).blocks) := by
  induction slots with
  | nil => exact .none
  | cons slot slots ih =>
    cases slot with
    | none => exact rel_within (none :: ·) ih ⟨[], [], fun slots => by simp⟩
    | some b =>
      rw [placeInSlots?, blocks_some, Block.findIn?]
      refine rel_or ?_ ?_
      · exact rel_within (some · :: slots) (b.place?_rel id)
          ⟨[], (mk slots).ids, fun b => by simp⟩
      · exact rel_within (some b :: ·) ih ⟨b.ids, [], fun slots => by simp⟩

/-- To get to a block for a change is to find it. -/
theorem place?_rel (p : Program) (id : BlockId) :
    Option.Rel (fun place b => place.content = b ∧ place.Lawful Block.ids ids p) (p.place? id)
      (p.find? id) :=
  rel_within mk (placeInSlots?_rel id p.slots) ⟨[], [], fun slots => by simp⟩

/-- The place of an identifier holds the block with it. -/
lemma map_content_place? (p : Program) (id : BlockId) :
    (p.place? id).map Place.content = p.find? id :=
  map_eq_of_rel (p.place?_rel id) fun _ _ h => h.1

/-- A block that is found has a place. -/
lemma exists_place? {p : Program} {id : BlockId} {b : Block} (h : p.find? id = some b) :
    ∃ place, p.place? id = some place ∧ place.content = b := by
  rw [← map_content_place?, Option.map_eq_some_iff] at h
  exact h

section

variable {p : Program} {id : BlockId} {place : Place Block Program}

lemma find?_of_place? (h : p.place? id = some place) : p.find? id = some place.content := by
  rw [← map_content_place?, h, Option.map_some]

/-- The block at the place of an identifier has this identifier. -/
lemma id_of_place? (h : p.place? id = some place) : place.content.id = id := by
  have hfind := find?_of_place? h
  rw [find?_eq] at hfind
  simpa using List.find?_some hfind

/-- The block at a place is one of the program. -/
lemma mem_family_of_place? (h : p.place? id = some place) : place.content ∈ p.family := by
  have hfind := find?_of_place? h
  rw [find?_eq] at hfind
  exact List.mem_of_find?_eq_some hfind

end

/-- Every place of a program is lawful. -/
lemma lawful_of_place? {p : Program} {id : BlockId} {place : Place Block Program}
    (h : p.place? id = some place) : place.Lawful Block.ids ids p := by
  obtain ⟨b, -, -, hlawful⟩ := exists_of_rel (p.place?_rel id) h
  exact hlawful

end Program

end BlockLang
