import BlockLang.Proofs.Program.Renaming
import BlockLang.Proofs.Program.Session
import Mathlib.Data.List.Forall2

/-!
# Calls with other ids

Calls on a program and the same calls, with other ids, on the renamed program go side by side. Main
statement: they have the same outcomes up to ids, however many are made.
-/

namespace BlockLang

variable {ρ : BlockId → BlockId}

/-! ## Outcomes -/

def EditError.renamed (ρ : BlockId → BlockId) : EditError → EditError
  | notFound block => .notFound (ρ block)
  | notCompound block => .notCompound (ρ block)
  | notAContainer block => .notAContainer (ρ block)
  | wrongContainer block container => .wrongContainer (ρ block) (container.renamed ρ)
  | headerRefused block header refusal => .headerRefused (ρ block) header refusal
  | headerMissing block kind => .headerMissing (ρ block) kind
  | alreadyPresent block => .alreadyPresent (ρ block)
  | outOfBounds index size => .outOfBounds index size
  | locked block => .locked (ρ block)

def EditFailure.renamed (ρ : BlockId → BlockId) : EditFailure → EditFailure
  | refused error => .refused (error.renamed ρ)
  | overrun => .overrun

/-- The edits end the same up to ids and layers. -/
inductive Edit.RenamesTo {α : Type} (rename : α → α) (ρ : BlockId → BlockId) :
    Edit α → Edit α → Prop
  | refused {p q : Program} (error : EditError) (h : p.RenamesTo ρ q) :
    RenamesTo rename ρ (.error (.refused error), p) (.error (.refused (error.renamed ρ)), q)
  | overrun {p q : Program} (h : p.RenamesTo ρ q) :
    RenamesTo rename ρ (.error .overrun, p) (.error .overrun, q)
  | done {p q : Program} (a : α) (h : p.RenamesTo ρ q) :
    RenamesTo rename ρ (.ok a, p) (.ok (rename a), q)

namespace Place

variable {α β : Type} {rename : (BlockId → BlockId) → α → α}
  {renameWhole : (BlockId → BlockId) → β → β} {place place' : Place α β}

/-- To put a renamed block at the renamed place is to rename what is put. -/
lemma RenamesTo.put_renamed (h : place.RenamesTo rename renameWhole ρ place')
    (hrename : ∀ a, rename (fun id => id) (rename ρ a) = rename ρ a) (a : α) :
    renameWhole (fun id => id) (place'.put (rename ρ a)) = renameWhole ρ (place.put a) :=
  h.put a (rename ρ a) (hrename a)

end Place

namespace Program

/-! ## Reaching containers and compound blocks -/

section

variable (hρ : Function.Injective ρ) (p : Program)

include hρ

/-- The list in a part is the same with other ids, or it is missed for the same reason. -/
lemma list?_renamed (id : BlockId) (part : Block.Part) :
    (∃ error, p.list? id part = .error error ∧
      (p.renamed ρ).list? (ρ id) part = .error (error.renamed ρ)) ∨
    ∃ list list', p.list? id part = .ok list ∧ (p.renamed ρ).list? (ρ id) part = .ok list' ∧
      Place.RenamesTo Block.renamedAll renamed ρ list list' := by
  have hplace := p.place?_renamed hρ id
  unfold list?
  generalize p.place? id = place at hplace
  generalize (p.renamed ρ).place? (ρ id) = place' at hplace
  cases hplace with
  | none => exact .inl ⟨_, rfl, rfl⟩
  | @some place place' h =>
    simp only [h.content, Block.compoundKind?_renamed, Block.part?_renamed]
    by_cases hkind : place.content.compoundKind?.isNone
    · rw [if_pos hkind, if_pos hkind]
      exact .inl ⟨_, rfl, rfl⟩
    · rw [if_neg hkind, if_neg hkind]
      cases hpart : place.content.part? part with
      | none => exact .inl ⟨_, rfl, rfl⟩
      | some bs =>
        refine .inr ⟨_, _, rfl, rfl, rfl, fun cs cs' hcs => h.put _ _ ?_⟩
        rw [Block.renamed_setPart, Block.renamed_setPart, hcs, Block.renamed_renamed]
        rfl

/-- Renaming takes compound blocks to compound blocks, and errors to errors. -/
lemma compound?_renamed (id : BlockId) :
    (∃ error, p.compound? id = .error error ∧
      (p.renamed ρ).compound? (ρ id) = .error (error.renamed ρ)) ∨
    ∃ place place', p.compound? id = .ok place ∧ (p.renamed ρ).compound? (ρ id) = .ok place' ∧
      Place.RenamesTo Block.renamed renamed ρ place place' := by
  have hplace := p.place?_renamed hρ id
  unfold compound?
  generalize p.place? id = place at hplace
  generalize (p.renamed ρ).place? (ρ id) = place' at hplace
  cases hplace with
  | none => exact .inl ⟨_, rfl, rfl⟩
  | @some place place' h =>
    simp only [h.content, Block.compoundKind?_renamed]
    by_cases hkind : place.content.compoundKind?.isNone
    · rw [if_pos hkind, if_pos hkind]
      exact .inl ⟨_, rfl, rfl⟩
    · rw [if_neg hkind, if_neg hkind]
      exact .inr ⟨_, _, rfl, rfl, h⟩

/-! ## Putting blocks in -/

/-- The first block that a program already has is the same after renaming. -/
lemma find?_present_renamed (b : Block) :
    ((b.renamed ρ).family.find? fun inner => ((p.renamed ρ).find? inner.id).isSome) =
      (b.family.find? fun inner => (p.find? inner.id).isSome).map (Block.renamed ρ) := by
  rw [Block.family_renamed, List.find?_map]
  refine congrArg (fun found => Option.map _ (List.find? found _)) (funext fun inner => ?_)
  rw [Function.comp_apply, Block.id_renamed, find?_renamed hρ, Option.isSome_map]

omit hρ in
lemma renamed_insertIdx (index : Nat) (b : Block) :
    (mk (p.slots.insertIdx index (some b))).renamed ρ =
      ⟨(p.renamed ρ).slots.insertIdx index (some (b.renamed ρ))⟩ :=
  congrArg mk (List.map_insertIdx ..)

omit hρ in
/-- The block that is first in the program is looked at for its lock only. -/
lemma first_renamed :
    (p.renamed ρ).slots.head?.join.filter Block.locked =
      (p.slots.head?.join.filter Block.locked).map (Block.renamed ρ) := by
  obtain ⟨slots⟩ := p
  cases slots with
  | nil => rfl
  | cons slot slots =>
    cases slot with
    | none => rfl
    | some b => simp [renamed, Option.filter]

omit hρ in
lemma refuse_renamed {α : Type} {rename : α → α} (error : EditError) {error' : EditError}
    (h : error' = error.renamed ρ) :
    Edit.RenamesTo rename ρ (p.refuse error) ((p.renamed ρ).refuse error') := by
  subst h
  exact .refused error p.renamesTo_renamed

/-- A renamed `insert` has the renamed outcome. -/
theorem insert_renamed (container : Container) (index : Nat) (b : Block) :
    Edit.RenamesTo ρ ρ (p.insert container index b)
      ((p.renamed ρ).insert (container.renamed ρ) index (b.renamed ρ)) := by
  unfold insert
  rw [p.find?_present_renamed hρ b]
  cases b.family.find? fun inner => (p.find? inner.id).isSome with
  | some present =>
    exact p.refuse_renamed (.alreadyPresent present.id)
      (congrArg EditError.alreadyPresent present.id_renamed)
  | none =>
    cases container with
    | program =>
      have hlength : (p.renamed ρ).slots.length = p.slots.length := List.length_map _
      simp only [Option.map_none, Container.renamed, hlength, p.first_renamed]
      by_cases hindex : p.slots.length < index
      · rw [if_pos hindex, if_pos hindex]
        exact p.refuse_renamed (.outOfBounds index p.slots.length) rfl
      · rw [if_neg hindex, if_neg hindex]
        have hdone : Edit.RenamesTo ρ ρ (.ok b.id, ⟨p.slots.insertIdx index (some b)⟩)
            (.ok (b.renamed ρ).id, ⟨(p.renamed ρ).slots.insertIdx index (some (b.renamed ρ))⟩) := by
          rw [← renamed_insertIdx, Block.id_renamed]
          exact .done _ (renamesTo_renamed _)
        -- Only at the start of the program is the lock of the block that is first looked at.
        cases p.slots.head?.join.filter Block.locked with
        | none => cases index <;> exact hdone
        | some first =>
          cases index with
          | zero =>
            exact p.refuse_renamed (.locked first.id) (congrArg EditError.locked first.id_renamed)
          | succ index => exact hdone
    | part id part =>
      obtain ⟨error, hlist, hlist'⟩ | ⟨list, list', hlist, hlist', h⟩ := p.list?_renamed hρ id part
      · simp only [Option.map_none, Container.renamed, hlist, hlist']
        exact p.refuse_renamed error rfl
      · have hlength : list'.content.length = list.content.length := by
          rw [h.content, Block.renamedAll_eq_map, List.length_map]
        simp only [Option.map_none, Container.renamed, hlist, hlist', hlength]
        by_cases hindex : list.content.length < index
        · rw [if_pos hindex, if_pos hindex]
          exact p.refuse_renamed (.outOfBounds index list.content.length) rfl
        · rw [if_neg hindex, if_neg hindex, Block.id_renamed, h.content,
            Block.renamedAll_eq_map, ← List.map_insertIdx, ← Block.renamedAll_eq_map]
          exact .done b.id (h.put_renamed (fun _ => Block.renamedAll_renamedAll ..) _)

/-- A renamed `push` has the renamed outcome. -/
theorem push_renamed (container : Container) (b : Block) :
    Edit.RenamesTo ρ ρ (p.push container b)
      ((p.renamed ρ).push (container.renamed ρ) (b.renamed ρ)) := by
  cases container with
  | program =>
    have hlength : (p.renamed ρ).slots.length = p.slots.length := List.length_map _
    simp only [push, Container.renamed, hlength]
    exact p.insert_renamed hρ .program p.slots.length b
  | part id part =>
    obtain ⟨error, hlist, hlist'⟩ | ⟨list, list', hlist, hlist', h⟩ := p.list?_renamed hρ id part
    · simp only [push, Container.renamed, hlist, hlist']
      exact p.refuse_renamed error rfl
    · have hlength : list'.content.length = list.content.length := by
        rw [h.content, Block.renamedAll_eq_map, List.length_map]
      simp only [push, Container.renamed, hlist, hlist', hlength]
      exact p.insert_renamed hρ (.part id part) list.content.length b

/-! ## Taking blocks out -/

/-- A renamed removal has the renamed outcome. -/
theorem removeAt_renamed (l : Location) (id : BlockId) :
    Edit.RenamesTo (Block.renamed ρ) ρ (p.removeAt l id)
      ((p.renamed ρ).removeAt (l.renamed ρ) (ρ id)) := by
  obtain ⟨container, index⟩ := l
  cases container with
  | program =>
    have hslot : (p.renamed ρ).slots[index]? = p.slots[index]?.map (Option.map (Block.renamed ρ)) :=
      List.getElem?_map ..
    have hrest : (mk (p.slots.eraseIdx index)).renamed ρ = ⟨(p.renamed ρ).slots.eraseIdx index⟩ :=
      congrArg mk (List.eraseIdx_map ..).symm
    simp only [removeAt, Location.renamed, Container.renamed, hslot, ← hrest]
    cases p.slots[index]? with
    | none => exact .overrun p.renamesTo_renamed
    | some slot =>
      cases slot with
      | none => exact .refused (.notFound id) (renamesTo_renamed _)
      | some b => exact .done b (renamesTo_renamed _)
  | part holder part =>
    -- The list is there on both sides or on neither.
    obtain ⟨error, hlist, hlist'⟩ | ⟨list, list', hlist, hlist', h⟩ :=
      p.list?_renamed hρ holder part
    · simp only [removeAt, Location.renamed, Container.renamed, hlist, hlist']
      exact p.refuse_renamed error rfl
    · simp only [removeAt, Location.renamed, Container.renamed, hlist, hlist', h.content,
        Block.renamedAll_eq_map, List.getElem?_map]
      cases list.content[index]? with
      | none => exact .overrun p.renamesTo_renamed
      | some b =>
        simp only [Option.map_some]
        rw [List.eraseIdx_map, ← Block.renamedAll_eq_map]
        exact .done b (h.put_renamed (fun _ => Block.renamedAll_renamedAll ..) _)

/-- A renamed `removeChild` has the renamed outcome. -/
theorem removeChild_renamed (container : Container) (id : BlockId) :
    Edit.RenamesTo (Block.renamed ρ) ρ (p.removeChild container id)
      ((p.renamed ρ).removeChild (container.renamed ρ) (ρ id)) := by
  have hlocked :
      ((p.renamed ρ).find? (ρ id)).any Block.locked = (p.find? id).any Block.locked := by
    rw [p.find?_renamed hρ, Option.any_map]
    exact congrArg (Option.any · _) (funext Block.locked_renamed)
  unfold removeChild
  rw [p.locate?_renamed hρ, hlocked]
  cases p.locate? id with
  | none => exact p.refuse_renamed (.notFound id) rfl
  | some l =>
    simp only [Option.map_some, Location.renamed, ne_eq, Container.renamed_inj hρ]
    split
    · exact p.refuse_renamed (.wrongContainer id container) rfl
    · split
      · exact p.refuse_renamed (.locked id) rfl
      · exact p.removeAt_renamed hρ l id

/-- A renamed `remove` has the renamed outcome. -/
theorem remove_renamed (id : BlockId) :
    Edit.RenamesTo (Block.renamed ρ) ρ (p.remove id) ((p.renamed ρ).remove (ρ id)) := by
  unfold remove
  rw [p.locate?_renamed hρ]
  cases p.locate? id with
  | none => exact p.refuse_renamed (.notFound id) rfl
  | some l => exact p.removeChild_renamed hρ l.container id

omit hρ in
theorem clearSlot_renamed (index : Nat) :
    Edit.RenamesTo (Option.map (Block.renamed ρ)) ρ (p.clearSlot index)
      ((p.renamed ρ).clearSlot index) := by
  have hslot : (p.renamed ρ).slots[index]? = p.slots[index]?.map (Option.map (Block.renamed ρ)) :=
    List.getElem?_map ..
  have hrest : (mk (p.slots.set index none)).renamed ρ = ⟨(p.renamed ρ).slots.set index none⟩ :=
    congrArg mk (List.map_set ..)
  have hlength : (p.renamed ρ).slots.length = p.slots.length := List.length_map _
  simp only [clearSlot, hslot, hlength, ← hrest]
  cases p.slots[index]? with
  | none => exact p.refuse_renamed (.outOfBounds index p.slots.length) rfl
  | some slot =>
    cases slot with
    | none => exact .done none (renamesTo_renamed _)
    | some b =>
      simp only [Option.map_some, Option.filter, b.locked_renamed]
      by_cases hlocked : b.locked = true
      · rw [if_pos hlocked, if_pos hlocked]
        exact p.refuse_renamed (.locked b.id) (congrArg EditError.locked b.id_renamed)
      · rw [if_neg hlocked, if_neg hlocked]
        exact .done (some b) (renamesTo_renamed _)

omit hρ in
lemma compact_renamed : (p.renamed ρ).compact = p.compact.renamed ρ := by
  refine congrArg mk (List.filter_map.trans (congrArg _ (List.filter_congr fun slot _ => ?_)))
  exact Option.isSome_map

/-! ## Changing blocks -/

/-- A renamed `attach` has the renamed outcome. -/
theorem attach_renamed (id : BlockId) (header : Header) :
    Edit.RenamesTo (fun a => a) ρ (p.attach id header) ((p.renamed ρ).attach (ρ id) header) := by
  obtain ⟨error, hplace, hplace'⟩ | ⟨place, place', hplace, hplace', h⟩ := p.compound?_renamed hρ id
  · simp only [attach, hplace, hplace']
    exact p.refuse_renamed error rfl
  · simp only [attach, hplace, hplace', h.content, Block.attach_renamed]
    cases place.content.attach header with
    | error refusal => exact p.refuse_renamed (.headerRefused id header refusal) rfl
    | ok filled => exact .done () (h.put_renamed (fun _ => Block.renamed_renamed ..) filled)

/-- A renamed `detach` has the renamed outcome. -/
theorem detach_renamed (id : BlockId) (kind : HeaderKind) :
    Edit.RenamesTo (fun a => a) ρ (p.detach id kind) ((p.renamed ρ).detach (ρ id) kind) := by
  obtain ⟨error, hplace, hplace'⟩ | ⟨place, place', hplace, hplace', h⟩ := p.compound?_renamed hρ id
  · simp only [detach, hplace, hplace']
    exact p.refuse_renamed error rfl
  · have hput := h.put_renamed (fun _ => Block.renamed_renamed ..) (place.content.clearHeader kind)
    simp only [detach, hplace, hplace', h.content, Block.take, Block.header?_renamed,
      Block.renamed_clearHeader]
    cases place.content.header? kind with
    | none => exact .refused (.headerMissing id kind) hput
    | some header => exact .done header hput

omit hρ in
/-- Only in its layer may the tag that a block is given be another one. -/
lemma withTag_renamed (b : Block) {tag tag' : Tag}
    (h : tag'.renamed (fun id => id) = tag.renamed ρ) :
    ((b.renamed ρ).withTag tag').renamed (fun id => id) = (b.withTag tag).renamed ρ := by
  rw [Block.renamed_withTag, Block.renamed_withTag, Block.renamed_renamed, h]
  rfl

lemma blocksIn_renamed (container : Container) :
    (∃ error, p.blocksIn container = .error error ∧
      (p.renamed ρ).blocksIn (container.renamed ρ) = .error (error.renamed ρ)) ∨
    ∃ bs bs', p.blocksIn container = .ok bs ∧
      (p.renamed ρ).blocksIn (container.renamed ρ) = .ok bs' := by
  cases container with
  | program => exact .inr ⟨_, _, rfl, rfl⟩
  | part id part =>
    obtain ⟨error, hlist, hlist'⟩ | ⟨list, list', hlist, hlist', -⟩ := p.list?_renamed hρ id part
    · simp only [blocksIn, Container.renamed, hlist, hlist']
      exact .inl ⟨error, rfl, rfl⟩
    · simp only [blocksIn, Container.renamed, hlist, hlist']
      exact .inr ⟨_, _, rfl, rfl⟩

/-- The layers may be others, but there is one for the block in both programs. -/
theorem moveToTop_renamed (id : BlockId) :
    Edit.RenamesTo (fun a => a) ρ (p.moveToTop id) ((p.renamed ρ).moveToTop (ρ id)) := by
  have hplace := p.place?_renamed hρ id
  unfold moveToTop
  rw [p.locate?_renamed hρ]
  cases p.locate? id with
  | none => exact p.refuse_renamed (.notFound id) rfl
  | some l =>
    simp only [Option.map_some, Location.renamed]
    obtain ⟨error, hblocks, hblocks'⟩ | ⟨bs, bs', hblocks, hblocks'⟩ :=
      p.blocksIn_renamed hρ l.container
    · simp only [hblocks, hblocks']
      exact p.refuse_renamed error rfl
    · simp only [hblocks, hblocks']
      generalize p.place? id = place at hplace
      generalize (p.renamed ρ).place? (ρ id) = place' at hplace
      cases hplace with
      | none => exact p.refuse_renamed (.notFound id) rfl
      | @some place place' h =>
        refine .done () (h.put _ _ ?_)
        rw [h.content, Block.tag_renamed]
        exact withTag_renamed place.content rfl

/-- Renamed locks and layers have the renamed outcome. -/
theorem setTag_renamed (id : BlockId) (locked : Option Bool) (layer : Option UInt32) :
    (p.setTag id locked layer).RenamesTo ρ ((p.renamed ρ).setTag (ρ id) locked layer) := by
  have hplace := p.place?_renamed hρ id
  unfold setTag
  generalize p.place? id = place at hplace
  generalize (p.renamed ρ).place? (ρ id) = place' at hplace
  cases hplace with
  | none => exact p.renamesTo_renamed
  | @some place place' h =>
    refine h.put _ _ ?_
    rw [h.content, Block.tag_renamed]
    exact withTag_renamed place.content rfl

end

end Program

/-! ## Calls one after the other -/

namespace Call

/-- The call with other ids. The blocks that are given with it are without layers. -/
def renamed (ρ : BlockId → BlockId) : Call → Call
  | insert container index b => .insert (container.renamed ρ) index (b.renamed ρ)
  | push container b => .push (container.renamed ρ) (b.renamed ρ)
  | removeChild container id => .removeChild (container.renamed ρ) (ρ id)
  | remove id => .remove (ρ id)
  | clearSlot index => .clearSlot index
  | compact => .compact
  | attach id header => .attach (ρ id) header
  | detach id kind => .detach (ρ id) kind
  | moveToTop id => .moveToTop (ρ id)
  | setTag id locked layer => .setTag (ρ id) locked layer

/-- How a call went, with other ids and without the layers of what is handed back. -/
def renamedResult (ρ : BlockId → BlockId) :
    Except EditFailure (List Block) → Except EditFailure (List Block)
  | .ok bs => .ok (Block.renamedAll ρ bs)
  | .error failure => .error (failure.renamed ρ)

/-- The second call is the first with other ids, and the blocks that are given with it may have
other layers. -/
def RenamesTo (ρ : BlockId → BlockId) (call call' : Call) : Prop :=
  call'.renamed (fun id => id) = call.renamed ρ

/-- The calls went the same up to ids: they hand back the same blocks or are refused for the same
reason. -/
def ResultsAgree (ρ : BlockId → BlockId) (result result' : Except EditFailure (List Block)) :
    Prop :=
  renamedResult (fun id => id) result' = renamedResult ρ result

/-- How calls go that are made one after the other, whether they fail or not. -/
def results (p : Program) : List Call → List (Except EditFailure (List Block))
  | [] => []
  | call :: calls => (call.run p).1 :: results (call.run p).2 calls

end Call

/-- Edits that agree hand back blocks that agree. -/
lemma Edit.RenamesTo.handing {α : Type} {rename : α → α} {edit edit' : Edit α}
    (h : Edit.RenamesTo rename ρ edit edit') {blocks : α → List Block}
    (hblocks : ∀ a, blocks (rename a) = Block.renamedAll ρ (blocks a)) :
    Edit.RenamesTo (Block.renamedAll ρ) ρ (Call.handing blocks edit)
      (Call.handing blocks edit') := by
  cases h with
  | refused error h => exact .refused error h
  | overrun h => exact .overrun h
  | @done p q a h =>
    have hdone : Edit.RenamesTo (Block.renamedAll ρ) ρ (.ok (blocks a), p)
        (.ok (Block.renamedAll ρ (blocks a)), q) := .done (blocks a) h
    rw [← hblocks] at hdone
    exact hdone

lemma Edit.RenamesTo.results {edit edit' : Edit (List Block)}
    (h : Edit.RenamesTo (Block.renamedAll ρ) ρ edit edit') :
    edit'.1 = Call.renamedResult ρ edit.1 ∧ edit.2.RenamesTo ρ edit'.2 := by
  cases h with
  | refused error h => exact ⟨rfl, h⟩
  | overrun h => exact ⟨rfl, h⟩
  | done bs h => exact ⟨rfl, h⟩

namespace Call

variable {p q : Program} {call call' : Call}

/-- A renamed call has the renamed outcome. -/
theorem run_renamed (hρ : Function.Injective ρ) (p : Program) (call : Call) :
    Edit.RenamesTo (Block.renamedAll ρ) ρ (call.run p) ((call.renamed ρ).run (p.renamed ρ)) := by
  cases call with
  | insert container index b => exact (p.insert_renamed hρ container index b).handing fun _ => rfl
  | push container b => exact (p.push_renamed hρ container b).handing fun _ => rfl
  | removeChild container id => exact (p.removeChild_renamed hρ container id).handing fun _ => rfl
  | remove id => exact (p.remove_renamed hρ id).handing fun _ => rfl
  | clearSlot index =>
    refine (p.clearSlot_renamed index).handing fun slot => ?_
    cases slot <;> rfl
  | compact =>
    rw [renamed, run, run, Program.compact_renamed]
    exact .done [] p.compact.renamesTo_renamed
  | attach id header => exact (p.attach_renamed hρ id header).handing fun _ => rfl
  | detach id kind => exact (p.detach_renamed hρ id kind).handing fun _ => rfl
  | moveToTop id => exact (p.moveToTop_renamed hρ id).handing fun _ => rfl
  | setTag id locked layer => exact .done [] (p.setTag_renamed hρ id locked layer)

/-- A call on a program and the same call on the same program with other ids go the same, and leave
programs that are the same again. -/
theorem RenamesTo.run (hρ : Function.Injective ρ) (h : p.RenamesTo ρ q)
    (hcall : call.RenamesTo ρ call') :
    ResultsAgree ρ (call.run p).1 (call'.run q).1 ∧ (call.run p).2.RenamesTo ρ (call'.run q).2 := by
  obtain ⟨hresult, hafter⟩ := (run_renamed hρ p call).results
  obtain ⟨hresult', hafter'⟩ := (run_renamed Function.injective_id q call').results
  -- Both calls are compared with the one call that has the other ids and no layers.
  have hq : q.renamed id = p.renamed ρ := h
  have hsame : call'.renamed id = call.renamed ρ := hcall
  rw [hq, hsame] at hresult' hafter'
  exact ⟨hresult'.symm.trans hresult, hafter'.symm.trans hafter⟩

/-- Renamed calls have the renamed outcomes, one after the other. -/
theorem RenamesTo.results (hρ : Function.Injective ρ) (h : p.RenamesTo ρ q)
    {calls calls' : List Call} (hcalls : List.Forall₂ (RenamesTo ρ) calls calls') :
    List.Forall₂ (ResultsAgree ρ) (Call.results p calls) (Call.results q calls') := by
  induction hcalls generalizing p q with
  | nil => exact .nil
  | cons hcall _ ih =>
    obtain ⟨hresult, hafter⟩ := hcall.run hρ h
    exact .cons hresult (ih hafter)

end Call

end BlockLang
