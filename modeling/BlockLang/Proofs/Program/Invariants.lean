import BlockLang.Proofs.Block.Slots
import BlockLang.Proofs.Program.Locks
import BlockLang.Proofs.Program.Modify
import Mathlib.Data.List.InsertIdx

/-!
# Properties of all blocks

A property of single blocks that does not depend on what is inside them is not affected when blocks
are moved. Main statements: if all blocks of a program, or of a session, have such a property, they
have it after a call, or a step, unless one of them loses it because it is changed itself.
-/

namespace BlockLang

/-! ## Changing one block -/

/-- A property of blocks that does not depend on what is in their parts. -/
def Block.Shallow (P : Block → Prop) : Prop :=
  ∀ b part bs, P b → P (b.setPart part bs)

variable {P : Block → Prop} {id : BlockId} {f : Block → Block}

mutual

/-- What does not depend on the blocks inside is kept by a change that keeps it. -/
theorem Block.forall_modify (hP : Shallow P)
    (hf : ∀ b, b.id = id → (∀ c ∈ b.family, P c) → ∀ c ∈ (f b).family, P c) (b : Block)
    (h : ∀ c ∈ b.family, P c) : ∀ c ∈ (b.modify id f).family, P c := by
  cases b with
  | action tag a =>
    rw [modify]
    split
    · exact hf _ ‹_› h
    · exact h
  | forLoop tag headers body =>
    rw [modify]
    split
    · exact hf _ ‹_› h
    · rw [family, List.forall_mem_cons] at h ⊢
      exact ⟨hP _ .body _ h.1, Block.forall_modifyAll hP hf body h.2⟩
  | whileLoop tag condition body =>
    rw [modify]
    split
    · exact hf _ ‹_› h
    · rw [family, List.forall_mem_cons] at h ⊢
      exact ⟨hP _ .body _ h.1, Block.forall_modifyAll hP hf body h.2⟩
  | ifElse tag condition ifPart elsePart =>
    rw [modify]
    split
    · exact hf _ ‹_› h
    · rw [family, List.forall_mem_cons, List.forall_mem_append] at h ⊢
      obtain ⟨hb, hif, helse⟩ := h
      exact ⟨hP _ .elsePart _ (hP _ .ifPart _ hb), Block.forall_modifyAll hP hf ifPart hif,
        Block.forall_modifyAll hP hf elsePart helse⟩

theorem Block.forall_modifyAll (hP : Shallow P)
    (hf : ∀ b, b.id = id → (∀ c ∈ b.family, P c) → ∀ c ∈ (f b).family, P c) (bs : List Block)
    (h : ∀ c ∈ families bs, P c) : ∀ c ∈ families (Block.modifyAll id f bs), P c := by
  cases bs with
  | nil => exact h
  | cons b bs =>
    rw [families, List.forall_mem_append] at h
    rw [modifyAll, families, List.forall_mem_append]
    exact ⟨Block.forall_modify hP hf b h.1, Block.forall_modifyAll hP hf bs h.2⟩

end

/-- To replace a part leaves the other parts. -/
lemma Block.parts_setPart (b : Block) (part : Part) (bs : List Block) :
    (b.setPart part bs).parts = b.parts.map fun q => if q.1 = part then (q.1, bs) else q := by
  cases b <;> cases part <;> rfl

/-- A part may be replaced by blocks for which the property holds. -/
lemma Block.forall_setPart (hP : Shallow P) {b : Block} (hb : ∀ c ∈ b.family, P c) (part : Part)
    {bs : List Block} (hbs : ∀ c ∈ families bs, P c) : ∀ c ∈ (b.setPart part bs).family, P c := by
  rw [family_eq_cons, List.forall_mem_cons] at hb ⊢
  refine ⟨hP b part bs hb.1, ?_⟩
  simp only [families_eq_flatMap, List.mem_flatMap, parts_setPart, List.mem_map] at hb hbs ⊢
  rintro c ⟨a, ⟨q, ⟨old, hold, rfl⟩, ha⟩, hc⟩
  split at ha
  · exact hbs c ⟨a, ha, hc⟩
  · exact hb.2 c ⟨a, ⟨old, hold, ha⟩, hc⟩

/-- A block that is changed itself has the same blocks inside it. -/
lemma Block.forall_of_parts_eq {b c : Block} (hparts : c.parts = b.parts)
    (hb : ∀ d ∈ b.family, P d) (hc : P c) : ∀ d ∈ c.family, P d := by
  rw [family_eq_cons, List.forall_mem_cons] at hb ⊢
  rw [hparts]
  exact ⟨hc, hb.2⟩

/-- What holds of all blocks in a block holds of all blocks in a part of it. -/
lemma Block.forall_part {b : Block} (hb : ∀ d ∈ b.family, P d) {part : Part} {bs : List Block}
    (hbs : b.part? part = some bs) : ∀ d ∈ families bs, P d := by
  cases b <;> cases part <;> cases hbs <;> simp_all [family]

lemma Block.forall_families_iff {bs : List Block} :
    (∀ c ∈ families bs, P c) ↔ ∀ b ∈ bs, ∀ c ∈ b.family, P c := by
  rw [families_eq_flatMap]
  exact List.forall_mem_flatMap

namespace Program

variable {p : Program}

lemma forall_family_iff :
    (∀ c ∈ p.family, P c) ↔ ∀ b, some b ∈ p.slots → ∀ c ∈ b.family, P c := by
  rw [family, Block.forall_families_iff, blocks]
  simp only [List.mem_filterMap, exists_eq_right]

theorem forall_modify (hP : Block.Shallow P)
    (hf : ∀ b, b.id = id → (∀ c ∈ b.family, P c) → ∀ c ∈ (f b).family, P c)
    (h : ∀ c ∈ p.family, P c) : ∀ c ∈ (p.modify id f).family, P c := by
  rw [forall_family_iff] at h ⊢
  intro c hc
  obtain ⟨slot, hslot, hb⟩ := List.mem_map.mp hc
  obtain ⟨b, rfl, rfl⟩ := Option.map_eq_some_iff.mp hb
  exact Block.forall_modify hP hf b (h b hslot)

end Program

/-! ## Calls -/

/-- What a call makes of the block that it is about. -/
inductive Call.Makes : Call → Block → Block → Prop where
  | attach {b filled : Block} {header : Header} (h : b.attach header = .ok filled) :
    Makes (.attach b.id header) b filled
  | detach (b : Block) (kind : HeaderKind) : Makes (.detach b.id kind) b (b.take kind).2
  | moveToTop (b : Block) (layer : UInt32) :
    Makes (.moveToTop b.id) b (b.withTag { b.tag with layer })
  | setTag (b : Block) (locked : Option Bool) (layer : Option UInt32) :
    Makes (.setTag b.id locked layer) b (b.withTag { b.tag with
      locked := locked.getD b.tag.locked, layer := layer.getD b.tag.layer })

/-- A call makes nothing of a block that could not be made of it in hand. -/
lemma Call.Makes.becomes {call : Call} {b c : Block} (h : call.Makes b c) : b.Becomes c := by
  cases h with
  | attach h => exact .attach h
  | detach _ kind => exact .take kind
  | moveToTop _ layer => exact .tag b.tag.locked layer
  | setTag _ locked layer => exact .tag _ _

/-- A change of tag or headers leaves the parts. -/
lemma Block.Becomes.parts_eq {b c : Block} (h : b.Becomes c) : c.parts = b.parts := by
  cases h with
  | attach h =>
    obtain ⟨-, -, rfl⟩ := Block.attach_eq_ok_iff.mp h
    exact (b.sameBut_setHeader _).parts
  | take kind => exact (b.sameBut_clearHeader kind).parts
  | tag => cases b <;> rfl

namespace Program

section

variable {p : Program} (h : p.ids.Nodup) (hP : Block.Shallow P) (hp : ∀ c ∈ p.family, P c)

include hp in
/-- What holds of all blocks of a program holds of all blocks at a place. -/
lemma forall_content {place : Place Block Program} (hplace : p.place? id = some place) :
    ∀ c ∈ place.content.family, P c :=
  fun c hc => hp c (Block.families_subset p.blocks (mem_family_of_place? hplace) hc)

include hp in
lemma forall_list {part : Block.Part} {list : Place (List Block) Program}
    (hlist : p.list? id part = .ok list) : ∀ c ∈ Block.families list.content, P c := by
  obtain ⟨place, bs, hplace, hbs, rfl⟩ := exists_place?_of_list? hlist
  exact Block.forall_part (forall_content hp hplace) hbs

include h hP hp

/-! ### What is put into places -/

/-- At a place one may put a block for which the property holds throughout. -/
lemma forall_put {place : Place Block Program} (hplace : p.place? id = some place) {b : Block}
    (hb : ∀ c ∈ b.family, P c) : ∀ c ∈ (place.put b).family, P c := by
  rw [put_eq_modify h hplace fun _ => b]
  exact forall_modify hP (fun _ _ _ => hb) hp

/-- A call changes a block in its place, and the blocks inside it stay as they are. -/
lemma forall_putMade {place : Place Block Program} (hplace : p.place? id = some place)
    {call : Call} (hmakes : ∀ b c, call.Makes b c → P b → P c) {b : Block}
    (hb : call.Makes place.content b) : ∀ c ∈ (place.put b).family, P c := by
  have hcontent := forall_content hp hplace
  have hmade : P b := hmakes _ _ hb (hcontent _ place.content.mem_family_self)
  exact forall_put h hP hp hplace (Block.forall_of_parts_eq hb.becomes.parts_eq hcontent hmade)

/-- In place of a list one may put blocks for which the property holds throughout. -/
lemma forall_putList {part : Block.Part} {list : Place (List Block) Program}
    (hlist : p.list? id part = .ok list) {bs : List Block} (hbs : ∀ c ∈ Block.families bs, P c) :
    ∀ c ∈ (list.put bs).family, P c := by
  obtain ⟨place, old, hplace, -, rfl⟩ := exists_place?_of_list? hlist
  exact forall_put h hP hp hplace (Block.forall_setPart hP (forall_content hp hplace) part hbs)

/-! ### Calls one by one -/

/-- The property is kept when a block with it is inserted. -/
lemma forall_insert (container : Container) (index : Nat) {b : Block} (hb : ∀ c ∈ b.family, P c) :
    ∀ c ∈ (p.insert container index b).2.family, P c := by
  unfold insert
  split
  · exact hp
  · split
    · split
      · exact hp
      · split
        · exact hp
        · rw [forall_family_iff] at hp ⊢
          intro c hc
          obtain hc | hc := List.eq_or_mem_of_mem_insertIdx hc
          · rwa [Option.some.inj hc]
          · exact hp c hc
    · split
      · exact hp
      · rename_i list hlist
        split
        · exact hp
        · have hlists := forall_list hp hlist
          refine forall_putList h hP hp hlist ?_
          rw [Block.forall_families_iff] at hlists ⊢
          intro c hc
          obtain rfl | hc := List.eq_or_mem_of_mem_insertIdx hc
          · exact hb
          · exact hlists c hc

/-- The property is kept when a block is taken out. -/
lemma forall_removeAt (l : Location) (id : BlockId) :
    ∀ c ∈ (p.removeAt l id).2.family, P c := by
  have hslots : ∀ index, ∀ c ∈ (mk (p.slots.eraseIdx index)).family, P c := by
    intro index
    rw [forall_family_iff] at hp ⊢
    exact fun b hb => hp b (List.mem_of_mem_eraseIdx hb)
  unfold removeAt
  split
  · split
    · exact hp
    · exact hslots l.index
    · exact hslots l.index
  · split
    · exact hp
    · rename_i list hlist
      split
      · exact hp
      · have hlists := forall_list hp hlist
        refine forall_putList h hP hp hlist ?_
        rw [Block.forall_families_iff] at hlists ⊢
        exact fun c hc => hlists c (List.mem_of_mem_eraseIdx hc)

lemma forall_removeChild (container : Container) (id : BlockId) :
    ∀ c ∈ (p.removeChild container id).2.family, P c := by
  unfold removeChild
  split
  · exact hp
  · split
    · exact hp
    · split
      · exact hp
      · exact forall_removeAt h hP hp _ id

omit h hP in
/-- The property is kept when a slot is cleared. -/
lemma forall_clearSlot (index : Nat) : ∀ c ∈ (p.clearSlot index).2.family, P c := by
  unfold clearSlot
  split
  · exact hp
  · split
    · exact hp
    · rw [forall_family_iff] at hp ⊢
      intro b hb
      obtain hb | hb := List.mem_or_eq_of_mem_set hb
      · exact hp b hb
      · cases hb

omit h hP in
lemma forall_compact : ∀ c ∈ p.compact.family, P c := by
  rw [forall_family_iff] at hp ⊢
  exact fun b hb => hp b (List.mem_of_mem_filter hb)

/-- If all blocks of a program and all that are given to a call have a property, all blocks of the
program have it after the call, unless the call changes one so that it loses it. -/
theorem forall_run {call : Call} (hgiven : ∀ c ∈ Block.families call.given, P c)
    (hmakes : ∀ b c, call.Makes b c → P b → P c) : ∀ c ∈ (call.run p).2.family, P c := by
  cases call with
  | insert container index b =>
    have hb := Block.forall_families_iff.mp hgiven b List.mem_cons_self
    exact forall_insert h hP hp container index hb
  | push container b =>
    have hb := Block.forall_families_iff.mp hgiven b List.mem_cons_self
    show ∀ c ∈ (p.push container b).2.family, P c
    unfold push
    split
    · exact forall_insert h hP hp _ _ hb
    · split
      · exact hp
      · exact forall_insert h hP hp _ _ hb
  | removeChild container id => exact forall_removeChild h hP hp container id
  | remove id =>
    show ∀ c ∈ (p.remove id).2.family, P c
    unfold remove
    split
    · exact hp
    · exact forall_removeChild h hP hp _ id
  | clearSlot index => exact forall_clearSlot hp index
  | compact => exact forall_compact hp
  -- A call that changes one block puts a block in its place that the call makes of it.
  | attach id header =>
    show ∀ c ∈ (p.attach id header).2.family, P c
    unfold attach
    split
    · exact hp
    · rename_i place hcompound
      have hplace := exists_place?_of_compound? hcompound
      obtain rfl := id_of_place? hplace
      split
      · exact hp
      · rename_i filled hfilled
        exact forall_putMade h hP hp hplace hmakes (.attach hfilled)
  | detach id kind =>
    show ∀ c ∈ (p.detach id kind).2.family, P c
    unfold detach
    split
    · exact hp
    · rename_i place hcompound
      have hplace := exists_place?_of_compound? hcompound
      obtain rfl := id_of_place? hplace
      split
      · rename_i htake
        obtain ⟨-, rfl⟩ := Prod.mk.inj htake
        exact forall_putMade h hP hp hplace hmakes (.detach _ kind)
      · rename_i htake
        obtain ⟨-, rfl⟩ := Prod.mk.inj htake
        exact forall_putMade h hP hp hplace hmakes (.detach _ kind)
  | moveToTop id =>
    show ∀ c ∈ (p.moveToTop id).2.family, P c
    unfold moveToTop
    split
    · exact hp
    · split
      · exact hp
      · split
        · exact hp
        · rename_i hplace
          obtain rfl := id_of_place? hplace
          exact forall_putMade h hP hp hplace hmakes (.moveToTop _ _)
  | setTag id locked layer =>
    show ∀ c ∈ (p.setTag id locked layer).family, P c
    unfold setTag
    split
    · exact hp
    · rename_i hplace
      obtain rfl := id_of_place? hplace
      exact forall_putMade h hP hp hplace hmakes (.setTag _ locked layer)

omit hP in
/-- What a call hands back was in the program. -/
lemma forall_handedBack (call : Call) :
    ∀ c ∈ Block.families (Call.handedBack (call.run p).1), P c := by
  have hhands := handsBack_run h call
  generalize Call.handedBack (call.run p).1 = handed at hhands
  generalize call.given = given at hhands
  cases hhands with
  | nothing => exact fun c hc => absurd hc List.not_mem_nil
  | @unlocked b hb _ =>
    rw [Block.forall_families_iff]
    intro a ha c hc
    rw [List.mem_singleton.mp ha] at hc
    exact hp c (Block.families_subset p.blocks hb hc)

end

end Program

/-! ## Steps -/

namespace Session

variable {s t : Session}

/-- All blocks of a session. -/
def family (s : Session) : List Block :=
  s.programs.flatMap Program.family ++ Block.families s.hand

lemma forall_family_iff :
    (∀ c ∈ s.family, P c) ↔
      (∀ p ∈ s.programs, ∀ c ∈ p.family, P c) ∧ ∀ c ∈ Block.families s.hand, P c := by
  rw [family, List.forall_mem_append, List.forall_mem_flatMap]

/-- The identifiers of a session are those of all its blocks. -/
lemma map_id_family (s : Session) : s.family.map Block.id = s.ids := by
  rw [family, ids, List.map_append, List.map_flatMap]
  rfl

/-- What a step makes of one block. -/
inductive Changes : Session → Session → Block → Block → Prop where
  | call {before after : List Program} {p : Program} {hand : List Block} {supply : Supply}
    {call : Call} {b c : Block} (h : call.Makes b c) :
    Changes ⟨before ++ p :: after, call.given ++ hand, supply⟩
      ⟨before ++ (call.run p).2 :: after, Call.handedBack (call.run p).1 ++ hand, supply⟩ b c
  | hand {programs : List Program} {hand : List Block} {supply : Supply} {b c : Block}
    (h : b.Becomes c) : Changes ⟨programs, b :: hand, supply⟩ ⟨programs, c :: hand, supply⟩ b c

/-- If all blocks of a session have a property, and all that are made, all blocks have it after a
step, unless the step changes one so that it loses it. -/
theorem Step.forall_family (h : Step s t) (hs : s.Sound) (hP : Block.Shallow P)
    (hfresh : ∀ b : Block, s.supply.next ≤ b.id.number → P b)
    (hchanges : ∀ b c, Changes s t b c → P b → P c) (hall : ∀ c ∈ s.family, P c) :
    ∀ c ∈ t.family, P c := by
  rw [forall_family_iff] at hall ⊢
  obtain ⟨hprograms, hhand⟩ := hall
  cases h with
  | @make _ record b supply h =>
    have hissues := record.issues_build s.supply
    rw [h] at hissues
    refine ⟨hprograms, ?_⟩
    rw [Block.families, List.forall_mem_append]
    refine ⟨fun c hc => hfresh c (hissues.free c.id ?_), hhand⟩
    exact List.mem_map_of_mem (by simpa [Block.families] using hc)
  | @wrap programs b hand supply h =>
    rw [Block.families_append, List.forall_mem_append] at hhand
    refine ⟨hprograms, ?_⟩
    rw [Block.families, List.forall_mem_append, Block.family_eq_cons, List.forall_mem_cons]
    refine ⟨⟨hfresh b ?_, hhand.1⟩, hhand.2⟩
    rw [Block.id, h]
    exact Nat.le_refl _
  | empty =>
    refine ⟨List.forall_mem_cons.mpr ⟨?_, hprograms⟩, hhand⟩
    exact fun c hc => absurd hc List.not_mem_nil
  | new initial =>
    refine ⟨List.forall_mem_cons.mpr ⟨fun c hc => hfresh c ?_, hprograms⟩, hhand⟩
    have hid : c = .initializer s.supply.tag.1.id initial := List.mem_singleton.mp hc
    rw [hid]
    exact Nat.le_refl _
  | load records =>
    have hissues := Program.issues_ofRecords records s.supply
    refine ⟨List.forall_mem_cons.mpr ⟨fun c hc => hfresh c ?_, hprograms⟩, hhand⟩
    exact hissues.free c.id (List.mem_map_of_mem hc)
  -- The program that is edited keeps the property; what comes out of it goes to the hand.
  | @edit before after p hand supply call =>
    have hp : p.ids.Nodup := hs.nodup_of_mem (List.mem_append_right _ List.mem_cons_self)
    have hmakes : ∀ b c, call.Makes b c → P b → P c := fun b c h => hchanges b c (.call h)
    simp only [List.forall_mem_append, List.forall_mem_cons, Block.families_append]
      at hprograms hhand ⊢
    obtain ⟨hbefore, hprogram, hafter⟩ := hprograms
    exact ⟨⟨hbefore, Program.forall_run hp hP hprogram hhand.1 hmakes, hafter⟩,
      Program.forall_handedBack hp hprogram call, hhand.2⟩
  | @change programs b c hand supply h =>
    refine ⟨hprograms, ?_⟩
    rw [Block.families, List.forall_mem_append] at hhand ⊢
    have hc : P c := hchanges b c (.hand h) (hhand.1 b b.mem_family_self)
    exact ⟨Block.forall_of_parts_eq h.parts_eq hhand.1 hc, hhand.2⟩
  | pick h =>
    rw [Block.forall_families_iff] at hhand ⊢
    exact ⟨hprograms, fun b hb => hhand b (h.mem_iff.mpr hb)⟩
  | @drop programs b hand supply =>
    rw [Block.families, List.forall_mem_append] at hhand
    exact ⟨hprograms, hhand.2⟩
  | @discard before after p hand supply =>
    simp only [List.forall_mem_append, List.forall_mem_cons] at hprograms ⊢
    exact ⟨⟨hprograms.1, hprograms.2.2⟩, hhand⟩

end Session

end BlockLang
