import BlockLang.Proofs.Program.Lookup
import BlockLang.Proofs.Run.Log
import Mathlib.Data.List.Nodup

/-!
# Addresses

A block in a program is found by its address, which is a slot and the way from there, whatever its
id. Main statements: going over a program comes to every address once, and a list that is put at an
address is found there.
-/

namespace BlockLang

/-! ## Following a path -/

namespace Block

/-- The block at the end of a path. -/
def follow? : Path → Block → Option Block
  | [], b => some b
  | (part, index) :: path, b => ((b.part? part).bind (·[index]?)).bind (follow? path)

/-- Puts a list into a part of the block at the end of a path. -/
def replace (part : Part) (bs : List Block) : Path → Block → Block
  | [], b => b.setPart part bs
  | (outer, index) :: path, b =>
    match b.part? outer with
    | none => b
    | some cs => b.setPart outer (cs.modify index (replace part bs path))

variable {b c : Block} {part outer : Part} {bs cs : List Block} {path : Path} {index : Nat}

/-- A path goes through one part of the block first. -/
lemma follow?_cons (h : b.part? outer = some cs) (index : Nat) (path : Path) :
    b.follow? ((outer, index) :: path) = cs[index]?.bind (follow? path) := by
  rw [follow?, h, Option.bind_some]

/-- A replacement along a path changes one block of one part. -/
lemma replace_cons (h : b.part? outer = some cs) (index : Nat) (path : Path) :
    b.replace part bs ((outer, index) :: path) =
      b.setPart outer (cs.modify index (replace part bs path)) := by
  rw [replace, h]

lemma tag_setPart (part : Part) (bs : List Block) (b : Block) :
    (b.setPart part bs).tag = b.tag := by
  cases b <;> rfl

/-- A part that is set is what was set. -/
lemma part?_setPart (h : b.part? part = some cs) (bs : List Block) :
    (b.setPart part bs).part? part = some bs := by
  cases b with
  | action => cases h
  | forLoop | whileLoop =>
    cases part with
    | body => rfl
    | ifPart | elsePart => cases h
  | ifElse =>
    cases part with
    | body => cases h
    | ifPart | elsePart => rfl

/-- A block keeps its tag, whatever is put inside it. -/
lemma id_replace (part : Part) (bs : List Block) (path : Path) (b : Block) :
    (b.replace part bs path).id = b.id := by
  cases path with
  | nil => exact congrArg Tag.id (tag_setPart part bs b)
  | cons step path =>
    rw [replace]
    split
    · rfl
    · exact congrArg Tag.id (tag_setPart _ _ b)

/-- A list that was put at the end of a path is there. -/
lemma follow?_replace (h : (b.follow? path).bind (·.part? part) = some cs) (bs : List Block) :
    ((b.replace part bs path).follow? path).bind (·.part? part) = some bs := by
  induction path generalizing b with
  | nil => exact part?_setPart h bs
  | cons step path ih =>
    obtain ⟨outer, index⟩ := step
    rw [follow?] at h
    cases hpart : b.part? outer with
    | none =>
      rw [hpart] at h
      cases h
    | some inner =>
      rw [hpart, Option.bind_some] at h
      rw [replace_cons hpart, follow?_cons (part?_setPart hpart _), List.getElem?_modify_eq]
      cases hindex : inner[index]? with
      | none =>
        rw [hindex] at h
        cases h
      | some c =>
        rw [hindex] at h
        exact ih h

end Block

/-! ## Going over a block -/

mutual

/-- A block and all blocks inside it, each before those inside it, with the paths to them. -/
def Block.charted : Block → List (Path × Block)
  | .action tag a => [([], .action tag a)]
  | .forLoop tag headers body => ([], .forLoop tag headers body) :: Block.chartedFrom .body 0 body
  | .whileLoop tag condition body =>
    ([], .whileLoop tag condition body) :: Block.chartedFrom .body 0 body
  | .ifElse tag condition ifPart elsePart =>
    ([], .ifElse tag condition ifPart elsePart) ::
      (Block.chartedFrom .ifPart 0 ifPart ++ Block.chartedFrom .elsePart 0 elsePart)

/-- The blocks of a part from an index on, and all blocks inside them. -/
def Block.chartedFrom (part : Part) (index : Nat) : List Block → List (Path × Block)
  | [] => []
  | b :: bs =>
    (b.charted.map fun (path, c) => ((part, index) :: path, c)) ++
      Block.chartedFrom part (index + 1) bs

end

mutual

/-- The chart of a block has each block of its family once. -/
lemma Block.map_snd_charted (b : Block) : b.charted.map Prod.snd = b.family := by
  cases b with
  | action => rfl
  | forLoop tag headers body =>
    rw [charted, family, List.map_cons, Block.map_snd_chartedFrom]
  | whileLoop tag condition body =>
    rw [charted, family, List.map_cons, Block.map_snd_chartedFrom]
  | ifElse tag condition ifPart elsePart =>
    rw [charted, family, List.map_cons, List.map_append, Block.map_snd_chartedFrom,
      Block.map_snd_chartedFrom]

lemma Block.map_snd_chartedFrom (part : Part) (index : Nat) (bs : List Block) :
    (Block.chartedFrom part index bs).map Prod.snd = Block.families bs := by
  cases bs with
  | nil => rfl
  | cons b bs =>
    rw [chartedFrom, families, List.map_append, List.map_map, ← Block.map_snd_charted b,
      Block.map_snd_chartedFrom]
    rfl

end

/-- A path is one of those through a part from an index on, and leads to the block. -/
def Block.LeadsFrom (part : Part) (index : Nat) (bs : List Block) (path : Path) (c : Block) :
    Prop :=
  ∃ k rest, path = (part, index + k) :: rest ∧ bs[k]?.bind (follow? rest) = some c

/-- The parts of a block are those that `part?` gives. -/
lemma Block.part?_eq_some_iff {b : Block} {part : Part} {bs : List Block} :
    b.part? part = some bs ↔ (part, bs) ∈ b.parts := by
  constructor
  · intro h
    cases b <;> cases part <;> cases h <;> simp [parts]
  · intro h
    cases b <;> cases part <;> simp [parts] at h <;> subst h <;> rfl

/-- A path ends at once, or leads into one of the parts. -/
lemma Block.follow?_eq_some_iff {b c : Block} {path : Path} :
    b.follow? path = some c ↔
      (path = [] ∧ c = b) ∨ ∃ q ∈ b.parts, LeadsFrom q.1 0 q.2 path c := by
  cases path with
  | nil =>
    constructor
    · intro h
      exact .inl ⟨rfl, (Option.some.inj h).symm⟩
    · rintro (⟨-, rfl⟩ | ⟨q, -, k, rest, hpath, -⟩)
      · rfl
      · cases hpath
  | cons step path =>
    obtain ⟨part, index⟩ := step
    constructor
    · intro h
      rw [follow?, Option.bind_eq_some_iff] at h
      obtain ⟨d, hd, hc⟩ := h
      obtain ⟨bs, hpart, hindex⟩ := Option.bind_eq_some_iff.mp hd
      refine .inr ⟨(part, bs), part?_eq_some_iff.mp hpart, index, path, by rw [Nat.zero_add], ?_⟩
      rw [hindex]
      exact hc
    · rintro (⟨h, -⟩ | ⟨q, hq, k, rest, hpath, hc⟩)
      · cases h
      · rw [Nat.zero_add] at hpath
        cases hpath
        rw [follow?_cons (part?_eq_some_iff.mpr hq)]
        exact hc

/-- A path into a list leads to its first block or into the rest. -/
lemma Block.leadsFrom_cons {part : Part} {index : Nat} {b c : Block} {bs : List Block}
    {path : Path} : LeadsFrom part index (b :: bs) path c ↔
      (∃ rest, path = (part, index) :: rest ∧ b.follow? rest = some c) ∨
        LeadsFrom part (index + 1) bs path c := by
  constructor
  · rintro ⟨_ | k, rest, hpath, hc⟩
    · exact .inl ⟨rest, hpath, hc⟩
    · exact .inr ⟨k, rest, by rw [hpath, Nat.add_assoc, Nat.add_comm 1 k], hc⟩
  · rintro (⟨rest, hpath, hc⟩ | ⟨k, rest, hpath, hc⟩)
    · exact ⟨0, rest, hpath, hc⟩
    · exact ⟨k + 1, rest, by rw [hpath, Nat.add_assoc, Nat.add_comm 1 k], hc⟩

mutual

/-- Going over a block comes to the blocks that paths lead to. -/
theorem Block.mem_charted_iff (b : Block) (path : Path) (c : Block) :
    (path, c) ∈ b.charted ↔ b.follow? path = some c := by
  rw [follow?_eq_some_iff]
  cases b with
  | action tag a => simp [charted, parts]
  | forLoop tag headers body =>
    rw [charted, List.mem_cons, Block.mem_chartedFrom_iff .body 0 body]
    simp [parts]
  | whileLoop tag condition body =>
    rw [charted, List.mem_cons, Block.mem_chartedFrom_iff .body 0 body]
    simp [parts]
  | ifElse tag condition ifPart elsePart =>
    rw [charted, List.mem_cons, List.mem_append, Block.mem_chartedFrom_iff .ifPart 0 ifPart,
      Block.mem_chartedFrom_iff .elsePart 0 elsePart]
    simp [parts]

/-- The chart has exactly the paths that lead to a block. -/
theorem Block.mem_chartedFrom_iff (part : Part) (index : Nat) (bs : List Block) (path : Path)
    (c : Block) :
    (path, c) ∈ Block.chartedFrom part index bs ↔ LeadsFrom part index bs path c := by
  cases bs with
  | nil => simp [chartedFrom, LeadsFrom]
  | cons b bs =>
    have hfirst : (path, c) ∈ (b.charted.map fun q => ((part, index) :: q.1, q.2)) ↔
        ∃ rest, path = (part, index) :: rest ∧ b.follow? rest = some c := by
      simp only [List.mem_map, Prod.exists, Prod.mk.injEq]
      constructor
      · rintro ⟨rest, d, hd, hpath, rfl⟩
        exact ⟨rest, hpath.symm, (Block.mem_charted_iff b rest d).mp hd⟩
      · rintro ⟨rest, hpath, hc⟩
        exact ⟨rest, c, (Block.mem_charted_iff b rest c).mpr hc, hpath.symm, rfl⟩
    rw [chartedFrom, List.mem_append, leadsFrom_cons, Block.mem_chartedFrom_iff part _ bs]
    exact or_congr_left hfirst

end

lemma Block.exists_leadsFrom {part : Part} {index : Nat} {bs : List Block} {path : Path}
    (h : path ∈ (Block.chartedFrom part index bs).map Prod.fst) :
    ∃ c, LeadsFrom part index bs path c := by
  obtain ⟨⟨path, c⟩, hmem, rfl⟩ := List.mem_map.mp h
  exact ⟨c, (mem_chartedFrom_iff part index bs path c).mp hmem⟩

/-- Paths into different parts are different. -/
lemma Block.disjoint_chartedFrom {part part' : Part} (hne : part ≠ part') (index index' : Nat)
    (bs cs : List Block) : ((Block.chartedFrom part index bs).map Prod.fst).Disjoint
      ((Block.chartedFrom part' index' cs).map Prod.fst) := by
  intro path hpath hpath'
  obtain ⟨c, k, rest, hk, -⟩ := exists_leadsFrom hpath
  obtain ⟨c', k', rest', hk', -⟩ := exists_leadsFrom hpath'
  rw [hk, List.cons.injEq, Prod.mk.injEq] at hk'
  exact hne hk'.1.1

mutual

/-- No path is come to twice. -/
theorem Block.nodup_charted (b : Block) : (b.charted.map Prod.fst).Nodup := by
  -- The path to the block itself leads into no part.
  have hnil : ∀ part index bs, [] ∉ (Block.chartedFrom part index bs).map Prod.fst := by
    intro part index bs h
    obtain ⟨c, k, rest, hpath, -⟩ := exists_leadsFrom h
    cases hpath
  cases b with
  | action => exact List.nodup_singleton _
  | forLoop tag headers body =>
    exact List.nodup_cons.mpr ⟨hnil _ _ _, Block.nodup_chartedFrom .body 0 body⟩
  | whileLoop tag condition body =>
    exact List.nodup_cons.mpr ⟨hnil _ _ _, Block.nodup_chartedFrom .body 0 body⟩
  | ifElse tag condition ifPart elsePart =>
    rw [charted, List.map_cons, List.map_append, List.nodup_cons, List.mem_append, not_or]
    exact ⟨⟨hnil _ _ _, hnil _ _ _⟩, (Block.nodup_chartedFrom .ifPart 0 ifPart).append
      (Block.nodup_chartedFrom .elsePart 0 elsePart) (disjoint_chartedFrom (by decide) _ _ _ _)⟩

/-- No path is in the chart twice. -/
theorem Block.nodup_chartedFrom (part : Part) (index : Nat) (bs : List Block) :
    ((Block.chartedFrom part index bs).map Prod.fst).Nodup := by
  cases bs with
  | nil => exact List.nodup_nil
  | cons b bs =>
    have hfirst : ((b.charted.map fun q => ((part, index) :: q.1, q.2)).map Prod.fst) =
        (b.charted.map Prod.fst).map ((part, index) :: ·) := by
      rw [List.map_map, List.map_map]
      rfl
    rw [chartedFrom, List.map_append, hfirst]
    refine ((Block.nodup_charted b).map List.cons_injective).append
      (Block.nodup_chartedFrom part (index + 1) bs) ?_
    -- The index of the first block is smaller than those behind it.
    intro path hpath hrest
    obtain ⟨rest, -, rfl⟩ := List.mem_map.mp hpath
    obtain ⟨c, k, rest', hk, -⟩ := exists_leadsFrom hrest
    rw [List.cons.injEq, Prod.mk.injEq] at hk
    omega

end

/-! ## Programs -/

/-- Where a block is in a program: the slot, and the path from the block in it. -/
structure Address where
  slot : Nat
  path : Path
deriving DecidableEq

/-- Where a list of blocks is inside a program: the block that it is a part of. -/
structure ListAddress extends Address where
  part : Block.Part
deriving DecidableEq

namespace Program

variable {p : Program} {a : ListAddress} {bs cs : List Block}

/-- The block at an address. -/
def follow? (p : Program) (a : Address) : Option Block :=
  p.slots[a.slot]?.join.bind (Block.follow? a.path)

/-- The list at an address. -/
def listAt? (p : Program) (a : ListAddress) : Option (List Block) :=
  (p.follow? a.toAddress).bind (·.part? a.part)

/-- The program with another list at the address. -/
def withList (p : Program) (a : ListAddress) (bs : List Block) : Program :=
  ⟨p.slots.modify a.slot (Option.map (Block.replace a.part bs a.path))⟩

/-- Behind an address there is a slot with a block in it. -/
lemma exists_slot_of_listAt? (h : p.listAt? a = some cs) :
    ∃ b, p.slots[a.slot]? = some (some b) ∧
      (b.follow? a.path).bind (·.part? a.part) = some cs := by
  obtain ⟨c, hc, hpart⟩ := Option.bind_eq_some_iff.mp h
  obtain ⟨b, hb, hfollow⟩ := Option.bind_eq_some_iff.mp hc
  refine ⟨b, Option.join_eq_some_iff.mp hb, ?_⟩
  rw [hfollow]
  exact hpart

/-- The list at an address that is replaced is what was put there. -/
lemma listAt?_withList (h : p.listAt? a = some cs) (bs : List Block) :
    (p.withList a bs).listAt? a = some bs := by
  obtain ⟨b, hslot, hb⟩ := exists_slot_of_listAt? h
  have hslot' : (p.withList a bs).slots[a.slot]? = some (some (b.replace a.part bs a.path)) := by
    rw [withList, List.getElem?_modify_eq, hslot]
    rfl
  rw [listAt?, follow?, hslot']
  exact Block.follow?_replace hb bs

/-- The blocks in slots from an index on and all blocks inside them, with their addresses. -/
def chartedSlots (index : Nat) : List (Option Block) → List (Address × Block)
  | [] => []
  | none :: slots => chartedSlots (index + 1) slots
  | some b :: slots =>
    (b.charted.map fun (path, c) => (⟨index, path⟩, c)) ++ chartedSlots (index + 1) slots

/-- All blocks of a program, each before those inside it, with their addresses. -/
def charted (p : Program) : List (Address × Block) :=
  chartedSlots 0 p.slots

/-- The address leads to the block, if the slots are counted from an index on. -/
def LeadsFrom (index : Nat) (slots : List (Option Block)) (a : Address) (c : Block) : Prop :=
  ∃ k, a.slot = index + k ∧ slots[k]?.join.bind (Block.follow? a.path) = some c

lemma leadsFrom_cons {index : Nat} {slot : Option Block} {slots : List (Option Block)}
    {a : Address} {c : Block} : LeadsFrom index (slot :: slots) a c ↔
      (a.slot = index ∧ slot.bind (Block.follow? a.path) = some c) ∨
        LeadsFrom (index + 1) slots a c := by
  constructor
  · rintro ⟨_ | k, hk, hc⟩
    · exact .inl ⟨hk, hc⟩
    · exact .inr ⟨k, by omega, hc⟩
  · rintro (⟨hk, hc⟩ | ⟨k, hk, hc⟩)
    · exact ⟨0, hk, hc⟩
    · exact ⟨k + 1, by omega, hc⟩

/-- The chart of the slots has exactly the addresses that lead to a block. -/
lemma mem_chartedSlots_iff (index : Nat) (slots : List (Option Block)) (a : Address) (c : Block) :
    (a, c) ∈ chartedSlots index slots ↔ LeadsFrom index slots a c := by
  induction slots generalizing index with
  | nil => simp [chartedSlots, LeadsFrom]
  | cons slot slots ih =>
    rw [leadsFrom_cons]
    cases slot with
    | none =>
      rw [chartedSlots, ih]
      simp
    | some b =>
      have hfirst : (a, c) ∈ (b.charted.map fun q => (Address.mk index q.1, q.2)) ↔
          a.slot = index ∧ b.follow? a.path = some c := by
        rw [← Block.mem_charted_iff, List.mem_map]
        constructor
        · rintro ⟨⟨path, d⟩, hmem, heq⟩
          cases heq
          exact ⟨rfl, hmem⟩
        · rintro ⟨rfl, hmem⟩
          exact ⟨(a.path, c), hmem, rfl⟩
      rw [chartedSlots, List.mem_append, ih]
      exact or_congr_left hfirst

/-- Going over a program comes to the blocks that addresses lead to. -/
theorem mem_charted_iff (a : Address) (c : Block) :
    (a, c) ∈ p.charted ↔ p.follow? a = some c := by
  rw [charted, mem_chartedSlots_iff, follow?]
  simp [LeadsFrom]

/-- These are all blocks of the program, in the same order. -/
lemma map_snd_charted (p : Program) : p.charted.map Prod.snd = p.family := by
  have hslots : ∀ index slots,
      (chartedSlots index slots).map Prod.snd = Block.families (mk slots).blocks := by
    intro index slots
    induction slots generalizing index with
    | nil => rfl
    | cons slot slots ih =>
      cases slot with
      | none => exact ih (index + 1)
      | some b =>
        rw [chartedSlots, List.map_append, ih, blocks_some, Block.families,
          ← b.map_snd_charted, List.map_map]
        rfl
  exact hslots 0 p.slots

/-- No address is come to twice. -/
theorem nodup_charted (p : Program) : (p.charted.map Prod.fst).Nodup := by
  have hslots : ∀ index slots, ((chartedSlots index slots).map Prod.fst).Nodup := by
    intro index slots
    induction slots generalizing index with
    | nil => exact List.nodup_nil
    | cons slot slots ih =>
      cases slot with
      | none => exact ih (index + 1)
      | some b =>
        have hfirst : (b.charted.map fun q => (Address.mk index q.1, q.2)).map Prod.fst =
            (b.charted.map Prod.fst).map (Address.mk index) := by
          rw [List.map_map, List.map_map]
          rfl
        have hinj : Function.Injective (Address.mk index) := fun _ _ h => (Address.mk.inj h).2
        rw [chartedSlots, List.map_append, hfirst]
        refine (b.nodup_charted.map hinj).append (ih (index + 1)) ?_
        intro a ha hrest
        obtain ⟨path, -, rfl⟩ := List.mem_map.mp ha
        obtain ⟨⟨a, c⟩, hmem, rfl : a = _⟩ := List.mem_map.mp hrest
        obtain ⟨k, hk, -⟩ := (mem_chartedSlots_iff _ _ _ c).mp hmem
        have hslot : index = index + 1 + k := hk
        omega
  exact hslots 0 p.slots

end Program

end BlockLang
