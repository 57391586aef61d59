import BlockLang.Proofs.Program.Lookup
import Mathlib.Data.Finset.Card
import Mathlib.Data.List.Nodup

/-!
# Unique ids

A container is named by the id of the block that it is a part of, and found again by that id. Main
statement: in a program whose blocks have different ids, what stands where a block is located is
that block.
-/

namespace BlockLang

/-! ## Parts of a block -/

namespace Block

variable {b : Block} {part : Part} {bs : List Block}

/-- Only compound blocks have parts. -/
lemma isSome_compoundKind?_of_part? (h : b.part? part = some bs) : b.compoundKind?.isSome := by
  cases b with
  | action tag a => cases h
  | forLoop => rfl
  | whileLoop => rfl
  | ifElse => rfl

/-- A part is a place in its block. -/
lemma lawful_part (h : b.part? part = some bs) :
    (Place.mk bs (b.setPart part)).Lawful idsOf ids b := by
  cases b with
  | action tag a => cases h
  | forLoop tag headers body =>
    cases part with
    | body =>
      obtain rfl := Option.some.inj h
      exact ⟨rfl, [tag.id], [], fun cs => by simp [setPart]⟩
    | ifPart | elsePart => cases h
  | whileLoop tag condition body =>
    cases part with
    | body =>
      obtain rfl := Option.some.inj h
      exact ⟨rfl, [tag.id], [], fun cs => by simp [setPart]⟩
    | ifPart | elsePart => cases h
  | ifElse tag condition ifPart elsePart =>
    cases part with
    | body => cases h
    | ifPart =>
      obtain rfl := Option.some.inj h
      exact ⟨rfl, [tag.id], idsOf elsePart, fun cs => by simp [setPart]⟩
    | elsePart =>
      obtain rfl := Option.some.inj h
      exact ⟨rfl, tag.id :: idsOf ifPart, [], fun cs => by simp [setPart]⟩

end Block

namespace Program

variable {p : Program} {id : BlockId} {part : Block.Part}

/-! ## Containers -/

/-- The list behind a container is a part of a block that is found. -/
lemma exists_place?_of_list? {list : Place (List Block) Program} (h : p.list? id part = .ok list) :
    ∃ place bs, p.place? id = some place ∧ place.content.part? part = some bs ∧
      list = (Place.mk bs (place.content.setPart part)).within place.put := by
  unfold list? at h
  split at h
  · cases h
  · rename_i place hplace
    split at h
    · cases h
    · split at h
      · cases h
      · rename_i bs hbs
        exact ⟨place, bs, hplace, hbs, (Except.ok.inj h).symm⟩

/-- A part of a block that is found is a list of the program. -/
lemma exists_list? {b : Block} {bs : List Block} (hb : p.find? id = some b)
    (hbs : b.part? part = some bs) :
    ∃ list, p.list? id part = .ok list ∧ list.content = bs := by
  obtain ⟨place, hplace, rfl⟩ := exists_place? hb
  have hkind : place.content.compoundKind?.isNone = false := by
    rw [← Option.not_isSome, Block.isSome_compoundKind?_of_part? hbs, Bool.not_true]
  refine ⟨(Place.mk bs (place.content.setPart part)).within place.put, ?_, rfl⟩
  rw [list?, hplace]
  simp only [hkind, hbs]
  rfl

/-- To put something else into a container leaves the ids around it as they are. -/
lemma lawful_of_list? {list : Place (List Block) Program} (h : p.list? id part = .ok list) :
    list.Lawful Block.idsOf ids p := by
  obtain ⟨place, bs, hplace, hbs, rfl⟩ := exists_place?_of_list? h
  have hlawful := lawful_of_place? hplace
  have hpart := (Block.lawful_part hbs).within hlawful.ids_put
  rwa [hlawful.put_content] at hpart

/-- What stands at a location. -/
def at? (p : Program) (l : Location) : Option Block :=
  match l.container with
  | .program => p.slots[l.index]?.join
  | .part id part => match p.list? id part with
    | .error _ => none
    | .ok list => list.content[l.index]?

/-! ## Different ids -/

/-- With distinct identifiers, what is found is the only block with the identifier. -/
lemma find?_eq_some_iff (h : p.ids.Nodup) {b : Block} :
    p.find? id = some b ↔ b ∈ p.family ∧ b.id = id := by
  rw [find?_eq]
  constructor
  · intro hb
    exact ⟨List.mem_of_find?_eq_some hb, by simpa using List.find?_some hb⟩
  · rintro ⟨hb, rfl⟩
    have hsome : (p.family.find? (·.id = b.id)).isSome := by
      rw [List.find?_isSome]
      exact ⟨b, hb, by simp⟩
    obtain ⟨c, hc⟩ := Option.isSome_iff_exists.mp hsome
    have hid : c.id = b.id := by simpa using List.find?_some hc
    rw [hc, List.inj_on_of_nodup_map h (List.mem_of_find?_eq_some hc) hb hid]

/-- The block whose part a container is comes up again under its id. -/
lemma StandsAt.at?_eq (h : p.ids.Nodup) {l : Location} {b : Block} (hb : p.StandsAt l b) :
    p.at? l = some b := by
  obtain ⟨hl, hb⟩ | ⟨holder, hmem, part, bs, hl, hpart, hb⟩ := hb
  · simp only [at?, hl, hb, Option.join_some]
  · -- No other block has the id of the holder, so the search for the container ends there.
    have hfind := (find?_eq_some_iff h).mpr ⟨hmem, rfl⟩
    obtain ⟨list, hlist, rfl⟩ := exists_list? hfind hpart
    simp only [at?, hl, hlist, hb]

/-- What stands where a block is located is the block. -/
theorem at?_locate? (h : p.ids.Nodup) (id : BlockId) :
    Option.Rel (fun l b => p.at? l = some b) (p.locate? id) (p.find? id) :=
  rel_mono (p.locate?_rel id) fun _ _ hb => hb.at?_eq h

end Program

end BlockLang
