import BlockLang.Proofs.Program.Lookup
import BlockLang.Record.Basic
import Mathlib.Data.List.Nodup

/-!
# Fresh ids

A loaded block and all blocks inside it get ids that were free. Main statement: what is loaded has
different ids, all of them given out between the supply before and the supply after.
-/

namespace BlockLang

namespace Supply

/-- The ids are different, and were free before and are no longer free after. -/
structure Issues (before after : Supply) (ids : List BlockId) : Prop where
  le : before.next ≤ after.next
  nodup : ids.Nodup
  free : ∀ id ∈ ids, before.next ≤ id.number
  taken : ∀ id ∈ ids, id.number < after.next

variable {s t u : Supply} {ids ids' : List BlockId}

lemma Issues.nil (s : Supply) : s.Issues s [] where
  le := Nat.le_refl _
  nodup := List.nodup_nil
  free := fun _ h => absurd h List.not_mem_nil
  taken := fun _ h => absurd h List.not_mem_nil

lemma Issues.tag (s : Supply) : s.Issues s.tag.2 [s.tag.1.id] where
  le := Nat.le_succ _
  nodup := List.nodup_singleton _
  free := fun id h => by
    rw [List.mem_singleton.mp h]
    exact Nat.le_refl _
  taken := fun id h => by
    rw [List.mem_singleton.mp h]
    exact Nat.lt_succ_self _

/-- Ids given out one after the other are different. -/
lemma Issues.append (h : s.Issues t ids) (h' : t.Issues u ids') : s.Issues u (ids ++ ids') where
  le := Nat.le_trans h.le h'.le
  nodup := by
    refine h.nodup.append h'.nodup ?_
    intro id hid hid'
    have hlt := h.taken id hid
    have hle := h'.free id hid'
    omega
  free := fun id hid => by
    rcases List.mem_append.mp hid with hid | hid
    · exact h.free id hid
    · exact Nat.le_trans h.le (h'.free id hid)
  taken := fun id hid => by
    rcases List.mem_append.mp hid with hid | hid
    · exact Nat.lt_of_lt_of_le (h.taken id hid) h'.le
    · exact h'.taken id hid

/-- In which order identifiers are issued does not matter. -/
lemma Issues.perm (h : s.Issues t ids) (hperm : ids'.Perm ids) : s.Issues t ids' where
  le := h.le
  nodup := hperm.nodup_iff.mpr h.nodup
  free := fun id hid => h.free id (hperm.subset hid)
  taken := fun id hid => h.taken id (hperm.subset hid)

/-- The block around others takes its id after them and stands before them. -/
lemma Issues.around (h : s.Issues t ids) : s.Issues t.tag.2 (t.tag.1.id :: ids) :=
  (h.append (.tag t)).perm (List.perm_append_singleton _ _).symm

end Supply

namespace BlockRecord

open Block (idsOf)

mutual

/-- To build a record issues the identifiers of the block. -/
theorem issues_build (r : BlockRecord) (supply : Supply) :
    supply.Issues (r.build supply).2 (idsOf (r.build supply).1.toList) := by
  cases r with
  | statement text locked => exact .tag supply
  | print => exact .tag supply
  | leave => exact .tag supply
  | addCounter name => exact .tag supply
  | forLoop counter init condition increment body =>
    have hbody := issues_buildList body supply
    simpa [build] using hbody.around
  | whileLoop condition body =>
    have hbody := issues_buildList body supply
    simpa [build] using hbody.around
  | ifElse condition ifPart elsePart =>
    -- The else part goes on where the if part has left the supply.
    have hif := issues_buildList ifPart supply
    have helse := issues_buildList elsePart (buildList ifPart supply).2
    simpa [build] using (hif.append helse).around
  | empty => exact .nil supply

theorem issues_buildList (rs : List BlockRecord) (supply : Supply) :
    supply.Issues (buildList rs supply).2 (idsOf (buildList rs supply).1) := by
  cases rs with
  | nil => exact .nil supply
  | cons r rs =>
    have hr := issues_build r supply
    have hrs := issues_buildList rs (r.build supply).2
    simpa [buildList] using hr.append hrs

end

/-- To build the slots issues the identifiers of the program. -/
theorem issues_buildSlots (rs : List BlockRecord) (supply : Supply) :
    supply.Issues (buildSlots rs supply).2 (Program.mk (buildSlots rs supply).1).ids := by
  induction rs generalizing supply with
  | nil => exact .nil supply
  | cons r rs ih =>
    have hr := issues_build r supply
    have hboth := hr.append (ih (r.build supply).2)
    rw [← Program.ids_cons] at hboth
    exact hboth

end BlockRecord

/-- Loaded blocks have ids that were free. -/
theorem Program.issues_ofRecords (records : List BlockRecord) (supply : Supply) :
    supply.Issues (ofRecords records supply).2 (ofRecords records supply).1.ids :=
  BlockRecord.issues_buildSlots records supply

end BlockLang
