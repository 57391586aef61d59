import BlockLang.Proofs.Program.Invariants
import BlockLang.Proofs.Program.RenamedCalls
import BlockLang.Proofs.Program.Untagged
import Mathlib.Logic.Equiv.Basic

/-!
# Editing reloaded programs

A program that was saved and loaded has other ids, and of its locks only those of statements. Main
statement: calls on it and on the program it was saved from go the same up to ids, whatever calls
are made, exactly when no other block than statements was locked.
-/

namespace BlockLang

variable {ρ : BlockId → BlockId}

/-! ## Renamings of different ids -/

/-- Different things can be renamed to different things. -/
lemma exists_perm_map_eq {α : Type} [DecidableEq α] {l l' : List α} (h : l.Nodup) (h' : l'.Nodup)
    (hlen : l.length = l'.length) : ∃ f : Equiv.Perm α, l' = l.map f := by
  induction l generalizing l' with
  | nil => exact ⟨Equiv.refl α, List.eq_nil_of_length_eq_zero hlen.symm⟩
  | cons a l ih =>
    obtain _ | ⟨b, l'⟩ := l'
    · cases hlen
    rw [List.nodup_cons] at h h'
    obtain ⟨f, rfl⟩ := ih h.2 h'.2 (Nat.succ.inj hlen)
    -- The renaming of the others is changed only where it would end in `b`.
    refine ⟨f.trans (Equiv.swap (f a) b), ?_⟩
    rw [List.map_cons, Equiv.trans_apply, Equiv.swap_apply_left]
    refine congrArg (b :: ·) (List.map_congr_left fun c hc => ?_)
    have hca : f c ≠ f a := fun heq => h.1 (f.injective heq ▸ hc)
    have hcb : f c ≠ b := fun heq => h'.1 (heq ▸ List.mem_map_of_mem hc)
    rw [Equiv.trans_apply, Equiv.swap_apply_of_ne_of_ne hca hcb]

/-! ## The same blocks under other ids -/

/-- Tags that differ in their ids are renamed if the ids are. -/
lemma Tag.renamed_of_id {σ : BlockId → BlockId} {tag tag' : Tag}
    (h : tag'.renamed σ = tag.renamed σ) (hid : tag'.id = ρ tag.id) :
    tag'.renamed (fun id => id) = tag.renamed ρ := by
  have hlocked : tag'.locked = tag.locked := (Tag.mk.inj h).2.1
  rw [renamed, renamed, hid, hlocked]

lemma Block.length_idsOf_of_renamedAll {σ : BlockId → BlockId} {bs cs : List Block}
    (h : renamedAll σ cs = renamedAll σ bs) : (idsOf cs).length = ((idsOf bs).map ρ).length := by
  have hfamilies := congrArg List.length (congrArg families h)
  rw [families_renamedAll, families_renamedAll, List.length_map, List.length_map] at hfamilies
  rw [idsOf, idsOf, List.length_map, List.length_map, List.length_map, hfamilies]

/-- Blocks that are the same but for their ids have equally many of them. -/
lemma Block.length_ids_of_renamed {σ : BlockId → BlockId} {b c : Block}
    (h : c.renamed σ = b.renamed σ) : c.ids.length = (b.ids.map ρ).length := by
  have hfamily := congrArg List.length (congrArg family h)
  rw [family_renamed, family_renamed, List.length_map, List.length_map] at hfamily
  rw [ids, ids, List.length_map, List.length_map, List.length_map, hfamily]

mutual

/-- A block that differs only in its ids is renamed if they are the renamed ids in order. -/
theorem Block.renamesTo_of_ids {σ : BlockId → BlockId} (b c : Block)
    (h : c.renamed σ = b.renamed σ) (hids : c.ids = b.ids.map ρ) : b.RenamesTo ρ c := by
  cases b with
  | action tag a =>
    cases c with
    | action tag' a' =>
      obtain ⟨htag, rfl⟩ := action.inj h
      have hid : tag'.id = ρ tag.id := List.head_eq_of_cons_eq hids
      rw [RenamesTo, renamed, renamed, Tag.renamed_of_id htag hid]
    | _ => cases h
  | forLoop tag headers body =>
    cases c with
    | forLoop tag' headers' body' =>
      simp only [renamed, forLoop.injEq] at h
      obtain ⟨htag, rfl, hbody⟩ := h
      rw [ids_forLoop, ids_forLoop, List.map_cons, List.cons.injEq] at hids
      rw [RenamesTo, renamed, renamed, Tag.renamed_of_id htag hids.1,
        Block.renamedAll_of_ids body body' hbody hids.2]
    | _ => cases h
  | whileLoop tag condition body =>
    cases c with
    | whileLoop tag' condition' body' =>
      simp only [renamed, whileLoop.injEq] at h
      obtain ⟨htag, rfl, hbody⟩ := h
      rw [ids_whileLoop, ids_whileLoop, List.map_cons, List.cons.injEq] at hids
      rw [RenamesTo, renamed, renamed, Tag.renamed_of_id htag hids.1,
        Block.renamedAll_of_ids body body' hbody hids.2]
    | _ => cases h
  | ifElse tag condition ifPart elsePart =>
    cases c with
    | ifElse tag' condition' ifPart' elsePart' =>
      simp only [renamed, ifElse.injEq] at h
      obtain ⟨htag, rfl, hif, helse⟩ := h
      rw [ids_ifElse, ids_ifElse, List.map_cons, List.cons.injEq, List.map_append] at hids
      -- The if parts have equally many ids, so the ids of the else parts are side by side too.
      obtain ⟨hids_if, hids_else⟩ := List.append_inj hids.2 (length_idsOf_of_renamedAll hif)
      rw [RenamesTo, renamed, renamed, Tag.renamed_of_id htag hids.1,
        Block.renamedAll_of_ids ifPart ifPart' hif hids_if,
        Block.renamedAll_of_ids elsePart elsePart' helse hids_else]
    | _ => cases h

theorem Block.renamedAll_of_ids {σ : BlockId → BlockId} (bs cs : List Block)
    (h : Block.renamedAll σ cs = Block.renamedAll σ bs)
    (hids : Block.idsOf cs = (Block.idsOf bs).map ρ) :
    Block.renamedAll (fun id => id) cs = Block.renamedAll ρ bs := by
  cases bs with
  | nil =>
    cases cs with
    | nil => rfl
    | cons c cs => cases h
  | cons b bs =>
    cases cs with
    | nil => cases h
    | cons c cs =>
      simp only [renamedAll, List.cons.injEq] at h
      rw [idsOf_cons, idsOf_cons, List.map_append] at hids
      obtain ⟨hids_b, hids_bs⟩ := List.append_inj hids (length_ids_of_renamed h.1)
      have hb : c.renamed _ = b.renamed ρ := Block.renamesTo_of_ids b c h.1 hids_b
      rw [renamedAll, renamedAll, hb, Block.renamedAll_of_ids bs cs h.2 hids_bs]

end

/-- A program that differs only in its ids is renamed if they are the renamed ids in order. -/
theorem Program.renamesTo_of_ids {σ : BlockId → BlockId} {p q : Program}
    (h : q.renamed σ = p.renamed σ) (hids : q.ids = p.ids.map ρ) : p.RenamesTo ρ q := by
  obtain ⟨slots⟩ := p
  obtain ⟨slots'⟩ := q
  replace h : slots'.map _ = slots.map _ := congrArg Program.slots h
  refine congrArg mk (?_ : slots'.map _ = slots.map _)
  induction slots generalizing slots' with
  | nil => rw [List.map_eq_nil_iff.mp h, List.map_nil, List.map_nil]
  | cons slot slots ih =>
    obtain _ | ⟨slot', slots'⟩ := slots'
    · cases h
    obtain ⟨hslot, hslots⟩ := List.cons.inj h
    cases slot with
    | none =>
      obtain rfl := Option.map_eq_none_iff.mp hslot
      rw [List.map_cons, List.map_cons, ih slots' hids hslots]
      rfl
    | some b =>
      obtain ⟨c, rfl, hc⟩ := Option.map_eq_some_iff.mp hslot
      rw [ids_some, ids_some, List.map_append] at hids
      obtain ⟨hids_b, hids_slots⟩ := List.append_inj hids (Block.length_ids_of_renamed hc)
      have hb : c.renamed _ = b.renamed ρ := b.renamesTo_of_ids c hc hids_b
      rw [List.map_cons, List.map_cons, ih slots' hids_slots hslots, Option.map_some, hb]
      rfl

/-! ## Locks that are saved -/

/-- If the block is locked, the lock is saved, as it is a statement. -/
def Block.SavesLock (b : Block) : Prop :=
  b.locked = true → ∃ tag code, b = .action tag (.statement code)

/-- A block whose lock is saved has none unless it is a statement. -/
lemma Block.SavesLock.locked_eq_false {b : Block} (h : b.SavesLock)
    (hb : ∀ tag code, b ≠ .action tag (.statement code)) : b.locked = false := by
  by_contra hlocked
  obtain ⟨tag, code, heq⟩ := h (Bool.eq_true_of_not_eq_false hlocked)
  exact hb tag code heq

/-- A tag without a lock is nothing but its id and its layer. -/
lemma Tag.renamed_of_unlocked {tag : Tag} (h : tag.locked = false) :
    tag.renamed (fun _ => ⟨0⟩) = { id := ⟨0⟩ } := by
  rw [renamed, h]

mutual

/-- If all locks in a block are saved, all of it is saved but its ids and layers. -/
lemma Block.renamed_eq_bare (b : Block) (h : ∀ c ∈ b.family, c.SavesLock) :
    b.renamed (fun _ => ⟨0⟩) = b.bare := by
  have hb : b.SavesLock := h b b.mem_family_self
  cases b with
  | action tag a =>
    cases a with
    | statement code => rfl
    | _ =>
      have hlocked : tag.locked = false := hb.locked_eq_false (by rintro _ _ ⟨⟩)
      rw [renamed, Tag.renamed_of_unlocked hlocked]
      rfl
  | forLoop tag headers body =>
    have hlocked : tag.locked = false := hb.locked_eq_false (by rintro _ _ ⟨⟩)
    rw [family, List.forall_mem_cons] at h
    rw [renamed, bare, Tag.renamed_of_unlocked hlocked, Block.renamedAll_eq_bareAll body h.2]
  | whileLoop tag condition body =>
    have hlocked : tag.locked = false := hb.locked_eq_false (by rintro _ _ ⟨⟩)
    rw [family, List.forall_mem_cons] at h
    rw [renamed, bare, Tag.renamed_of_unlocked hlocked, Block.renamedAll_eq_bareAll body h.2]
  | ifElse tag condition ifPart elsePart =>
    have hlocked : tag.locked = false := hb.locked_eq_false (by rintro _ _ ⟨⟩)
    rw [family, List.forall_mem_cons, List.forall_mem_append] at h
    rw [renamed, bare, Tag.renamed_of_unlocked hlocked, Block.renamedAll_eq_bareAll ifPart h.2.1,
      Block.renamedAll_eq_bareAll elsePart h.2.2]

lemma Block.renamedAll_eq_bareAll (bs : List Block) (h : ∀ c ∈ Block.families bs, c.SavesLock) :
    Block.renamedAll (fun _ => ⟨0⟩) bs = Block.bareAll bs := by
  cases bs with
  | nil => rfl
  | cons b bs =>
    rw [families, List.forall_mem_append] at h
    rw [renamedAll, bareAll, Block.renamed_eq_bare b h.1, Block.renamedAll_eq_bareAll bs h.2]

end

/-- If all locks of a program are saved, all of it is saved but its ids and layers. -/
lemma Program.slots_renamed_eq_bare {p : Program} (h : ∀ b ∈ p.family, b.SavesLock) :
    (p.renamed fun _ => ⟨0⟩).slots = p.slots.map (Option.map Block.bare) := by
  refine List.map_congr_left fun slot hslot => ?_
  cases slot with
  | none => rfl
  | some b => exact congrArg some (b.renamed_eq_bare (forall_family_iff.mp h b hslot))

/-- Where there is no lock it need not be saved. -/
lemma Block.savesLock_of_unlocked {b : Block} (h : b.locked = false) : b.SavesLock :=
  fun hlocked => absurd (h.symm.trans hlocked) Bool.false_ne_true

open BlockRecord in
mutual

/-- Only statements are loaded with a lock. -/
lemma Block.savesLock_build (r : BlockRecord) (supply : Supply) :
    ∀ c ∈ Block.families (r.build supply).1.toList, c.SavesLock := by
  cases r with
  | statement text locked =>
    intro c hc
    rw [List.mem_singleton.mp hc]
    exact fun _ => ⟨_, _, rfl⟩
  | print | leave | addCounter name =>
    intro c hc
    rw [List.mem_singleton.mp hc]
    exact savesLock_of_unlocked rfl
  | forLoop counter init condition increment body =>
    have hbody := Block.savesLock_buildList body supply
    simp only [build, Option.toList_some, families, family, List.append_nil,
      List.forall_mem_cons]
    exact ⟨savesLock_of_unlocked rfl, hbody⟩
  | whileLoop condition body =>
    have hbody := Block.savesLock_buildList body supply
    simp only [build, Option.toList_some, families, family, List.append_nil,
      List.forall_mem_cons]
    exact ⟨savesLock_of_unlocked rfl, hbody⟩
  | ifElse condition ifPart elsePart =>
    have hif := Block.savesLock_buildList ifPart supply
    have helse := Block.savesLock_buildList elsePart (buildList ifPart supply).2
    simp only [build, Option.toList_some, families, family, List.append_nil,
      List.forall_mem_cons, List.forall_mem_append]
    exact ⟨savesLock_of_unlocked rfl, hif, helse⟩
  | empty => exact fun _ h => absurd h List.not_mem_nil

lemma Block.savesLock_buildList (rs : List BlockRecord) (supply : Supply) :
    ∀ c ∈ Block.families (buildList rs supply).1, c.SavesLock := by
  cases rs with
  | nil => exact fun _ h => absurd h List.not_mem_nil
  | cons r rs =>
    have hr := Block.savesLock_build r supply
    have hrs := Block.savesLock_buildList rs (r.build supply).2
    rw [buildList, Block.families_append, List.forall_mem_append]
    exact ⟨hr, hrs⟩

end

namespace Program

/-- Every lock of a loaded program is saved again. -/
lemma savesLock_ofRecords (records : List BlockRecord) (supply : Supply) :
    ∀ b ∈ (ofRecords records supply).1.family, b.SavesLock := by
  rw [forall_family_iff]
  show ∀ b, some b ∈ (BlockRecord.buildSlots records supply).1 → ∀ c ∈ b.family, c.SavesLock
  induction records generalizing supply with
  | nil => exact fun b hb => absurd hb List.not_mem_nil
  | cons r records ih =>
    have hr := Block.savesLock_build r supply
    intro b hb
    rcases List.mem_cons.mp hb with hb | hb
    · rw [← hb] at hr
      simpa [Block.families] using hr
    · exact ih (r.build supply).2 b hb

/-- If all locks of a program are saved, the reloaded program differs in ids and layers only. -/
theorem renamesTo_reloaded {p : Program} (h : ∀ b ∈ p.family, b.SavesLock) {supply : Supply}
    (hids : (ofRecords p.records supply).1.ids = p.ids.map ρ) :
    p.RenamesTo ρ (ofRecords p.records supply).1 := by
  refine renamesTo_of_ids (σ := fun _ => ⟨0⟩) (congrArg mk ?_) hids
  have hbare := p.bare_ofRecords_records supply
  have hloaded := slots_renamed_eq_bare (savesLock_ofRecords p.records supply)
  exact hloaded.trans (hbare.trans (slots_renamed_eq_bare h).symm)

/-! ## Removing a locked block -/

/-- To remove a block is refused if it is locked. -/
lemma remove_of_locked {p : Program} (h : p.ids.Nodup) {b : Block} (hb : b ∈ p.family)
    (hlocked : b.locked = true) : p.remove b.id = p.refuse (.locked b.id) := by
  have hfind := (find?_eq_some_iff h).mpr ⟨hb, rfl⟩
  have hsome : (p.locate? b.id).isSome := by
    rw [isSome_eq_of_rel (at?_locate? h b.id), hfind]
    rfl
  obtain ⟨l, hl⟩ := Option.isSome_iff_exists.mp hsome
  simp [remove, removeChild, hl, hfind, hlocked]

/-- A block that is not locked can be removed. -/
lemma exists_remove_of_unlocked {p : Program} (h : p.ids.Nodup) {b : Block} (hb : b ∈ p.family)
    (hlocked : b.locked = false) : ∃ q, p.remove b.id = (.ok b, q) := by
  have hfind := (find?_eq_some_iff h).mpr ⟨hb, rfl⟩
  have hsome : (p.locate? b.id).isSome := by
    rw [isSome_eq_of_rel (at?_locate? h b.id), hfind]
    rfl
  obtain ⟨l, hl⟩ := Option.isSome_iff_exists.mp hsome
  obtain ⟨q, hq, -⟩ := exists_removeChild h hl hfind hlocked
  exact ⟨q, by simp only [remove, hl, hq]⟩

end Program

mutual

/-- Without tags a block has the blocks inside it without tags. -/
lemma Block.family_untagged (b : Block) : b.untagged.family = b.family.map untagged := by
  cases b with
  | action tag a => rfl
  | forLoop tag headers body =>
    simp only [untagged, family, List.map_cons, Block.families_untaggedAll body]
  | whileLoop tag condition body =>
    simp only [untagged, family, List.map_cons, Block.families_untaggedAll body]
  | ifElse tag condition ifPart elsePart =>
    simp only [untagged, family, List.map_cons, List.map_append,
      Block.families_untaggedAll ifPart, Block.families_untaggedAll elsePart]

lemma Block.families_untaggedAll (bs : List Block) :
    Block.families (Block.untaggedAll bs) = (Block.families bs).map untagged := by
  cases bs with
  | nil => rfl
  | cons b bs =>
    simp only [untaggedAll, families, List.map_append, Block.family_untagged b,
      Block.families_untaggedAll bs]

end

namespace Program

/-- Where a block was, the reloaded program has one that is the same without tags. -/
lemma exists_reloaded {p : Program} {supply : Supply}
    (hids : (ofRecords p.records supply).1.ids = p.ids.map ρ) {b : Block} (hb : b ∈ p.family) :
    ∃ c ∈ (ofRecords p.records supply).1.family, c.id = ρ b.id ∧ c.untagged = b.untagged := by
  have huntagged := congrArg Block.families (p.untagged_ofRecords_records supply)
  rw [untagged, untagged, Block.families_untaggedAll, Block.families_untaggedAll] at huntagged
  have hpairs : (ofRecords p.records supply).1.family.map (fun c => (c.id, c.untagged)) =
      p.family.map fun b => (ρ b.id, b.untagged) := by
    rw [← List.zip_map', ← List.zip_map']
    refine congrArg₂ List.zip (hids.trans ?_) huntagged
    rw [ids, Block.idsOf, List.map_map]
    rfl
  have hmem : (ρ b.id, b.untagged) ∈ p.family.map fun b => (ρ b.id, b.untagged) :=
    List.mem_map_of_mem hb
  rw [← hpairs, List.mem_map] at hmem
  obtain ⟨c, hc, heq⟩ := hmem
  exact ⟨c, hc, (Prod.mk.inj heq).1, (Prod.mk.inj heq).2⟩

end Program

/-! ## Editing -/

namespace Session

variable {s : Session} {p : Program}

/-- In every session the ids of a program and of the program that is loaded from its records are
matched by a renaming. Calls with matched ids on both go the same up to ids, whatever calls are made
one after the other, exactly when no block of the program but statements is locked. -/
theorem Reachable.reloaded_edits_alike_iff (hs : s.Reachable) (hp : p ∈ s.programs)
    (supply : Supply) :
    (∃ ρ : BlockId → BlockId, Function.Injective ρ ∧
      (Program.ofRecords p.records supply).1.ids = p.ids.map ρ) ∧
    ∀ ρ : BlockId → BlockId, Function.Injective ρ →
      (Program.ofRecords p.records supply).1.ids = p.ids.map ρ →
      ((∀ calls calls', List.Forall₂ (Call.RenamesTo ρ) calls calls' →
          List.Forall₂ (Call.ResultsAgree ρ) (Call.results p calls)
            (Call.results (Program.ofRecords p.records supply).1 calls')) ↔
        ∀ b ∈ p.family, b.locked = true → ∃ tag code, b = .action tag (.statement code)) := by
  have hnodup := hs.sound.nodup_of_mem hp
  have hloaded := (Program.issues_ofRecords p.records supply).nodup
  have hlen : p.ids.length = (Program.ofRecords p.records supply).1.ids.length :=
    Block.length_idsOf_eq (p.untagged_ofRecords_records supply)
  constructor
  · obtain ⟨f, hf⟩ := exists_perm_map_eq hnodup hloaded hlen
    exact ⟨f, f.injective, hf⟩
  · intro ρ hρ hids
    constructor
    · -- To remove a locked block tells whether its lock was loaded.
      intro hcalls b hb hlocked
      obtain ⟨c, hc, hid, hsame⟩ := Program.exists_reloaded hids hb
      have hremove : Call.RenamesTo ρ (.remove b.id) (.remove (ρ b.id)) := rfl
      cases hcalls _ _ (.cons hremove .nil) with
      | cons hagree _ =>
        have hrefused := Program.remove_of_locked hnodup hb hlocked
        cases hclocked : c.locked with
        | false =>
          obtain ⟨q, hq⟩ := Program.exists_remove_of_unlocked hloaded hc hclocked
          rw [hid] at hq
          rw [Call.ResultsAgree, Call.run, Call.run, hrefused, hq] at hagree
          cases hagree
        | true =>
          obtain ⟨tag, code, rfl⟩ := Program.savesLock_ofRecords _ _ c hc hclocked
          obtain ⟨tag', rfl⟩ := Block.eq_action_of_untagged hsame.symm
          exact ⟨tag', code, rfl⟩
    · intro hlocks calls calls' hcalls
      exact Call.RenamesTo.results hρ (Program.renamesTo_reloaded hlocks hids) hcalls

/-- Calls on the locked statement, on the loop around it, and with another block. -/
def callsOnLoop (loop statement other : BlockId) (layer : UInt32) : List Call := [
  .removeChild (.part loop .body) statement,
  .insert (.part loop .body) 0 (.action { id := other, layer } .print),
  .setTag statement (some false) none,
  .remove statement,
  .attach loop (.increment 1)]

/-- The statement is kept until its lock is taken off, also in the reloaded program. -/
theorem lockedInside_reloaded_edits_alike :
    (Program.ofRecords lockedInside.records ⟨3⟩).1.ids = [⟨4⟩, ⟨3⟩] ∧
      (Call.results lockedInside (callsOnLoop ⟨2⟩ ⟨1⟩ ⟨5⟩ 0)).map Except.isOk =
        [false, true, true, true, false] ∧
      List.Forall₂ (Call.ResultsAgree fun id => ⟨id.number + 2⟩)
        (Call.results lockedInside (callsOnLoop ⟨2⟩ ⟨1⟩ ⟨5⟩ 0))
        (Call.results (Program.ofRecords lockedInside.records ⟨3⟩).1
          (callsOnLoop ⟨4⟩ ⟨3⟩ ⟨7⟩ 1)) := by
  obtain ⟨-, halike⟩ := reachable_lockedInside.reloaded_edits_alike_iff List.mem_cons_self ⟨3⟩
  have hinjective : Function.Injective fun id : BlockId => (⟨id.number + 2⟩ : BlockId) := by
    intro a b h
    have hnumber : a.number + 2 = b.number + 2 := congrArg BlockId.number h
    cases a
    cases b
    simpa using hnumber
  refine ⟨rfl, by decide +kernel, (halike _ hinjective rfl).mpr ?_ _ _ ?_⟩
  · intro b hb hlocked
    rcases List.mem_cons.mp hb with rfl | hb
    · cases hlocked
    · exact ⟨_, _, List.mem_singleton.mp hb⟩
  · exact .cons rfl (.cons rfl (.cons rfl (.cons rfl (.cons rfl .nil))))

/-- A locked block that prints. -/
def lockedPrint : Program :=
  ⟨[some (.action { id := ⟨1⟩, locked := true } .print)]⟩

/-- The lock of a block that prints is not saved, so the reloaded block can be removed. -/
theorem lockedPrint_reloaded_unlocked :
    Reachable ⟨[lockedPrint], [], ⟨2⟩⟩ ∧ lockedPrint.ids = [⟨1⟩] ∧
      (Program.ofRecords lockedPrint.records ⟨2⟩).1.ids = [⟨2⟩] ∧
      (Call.run lockedPrint (.remove ⟨1⟩)).1 = .error (.refused (.locked ⟨1⟩)) ∧
      (Call.run (Program.ofRecords lockedPrint.records ⟨2⟩).1 (.remove ⟨2⟩)).1 =
        .ok [.action { id := ⟨2⟩ } .print] ∧
      ∀ ρ, ¬ Call.ResultsAgree ρ (Call.run lockedPrint (.remove ⟨1⟩)).1
        (Call.run (Program.ofRecords lockedPrint.records ⟨2⟩).1 (.remove ⟨2⟩)).1 := by
  have hload := @Step.load {} [.print]
  have hlock := @Step.edit [] [] ⟨[some (.action { id := ⟨1⟩ } .print)]⟩ [] ⟨2⟩
    (.setTag ⟨1⟩ (some true) none)
  exact ⟨.tail (.single hload) hlock, rfl, rfl, rfl, rfl, fun ρ h => by cases h⟩

end Session

end BlockLang
