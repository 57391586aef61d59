import BlockLang.Proofs.Program.Unique
import Mathlib.Data.List.Perm.Basic

/-!
# What edits do with blocks

Main statement: an edit of a program whose blocks have different ids is either refused and leaves
the program as it was, or it is done and no block is lost or doubled: the ids of what was given and
of what was there are the ids of what is handed back and of what is there afterwards.
-/

namespace BlockLang

/-! ## Ids of rearranged lists -/

namespace Block

variable {b : Block} {bs cs : List Block}

lemma families_eq_flatMap (bs : List Block) : families bs = bs.flatMap family := by
  induction bs with
  | nil => rfl
  | cons b bs ih => rw [families, ih, List.flatMap_cons]

/-- Blocks in another order have the same identifiers in another order. -/
lemma idsOf_perm (h : bs.Perm cs) : (idsOf bs).Perm (idsOf cs) := by
  rw [idsOf, idsOf, families_eq_flatMap, families_eq_flatMap]
  exact (h.flatMap_right family).map id

/-- A block put into a list brings its identifiers along. -/
lemma idsOf_insertIdx_perm {index : Nat} (h : index ≤ bs.length) (b : Block) :
    (idsOf (bs.insertIdx index b)).Perm (b.ids ++ idsOf bs) := by
  rw [← idsOf_cons]
  exact idsOf_perm (List.perm_insertIdx b bs h)

/-- A block erased from a list takes its identifiers with it. -/
lemma idsOf_eraseIdx_perm {index : Nat} (h : bs[index]? = some b) :
    (b.ids ++ idsOf (bs.eraseIdx index)).Perm (idsOf bs) := by
  obtain ⟨hlt, rfl⟩ := List.getElem?_eq_some_iff.mp h
  rw [← idsOf_cons]
  exact idsOf_perm (List.getElem_cons_eraseIdx_perm hlt)

/-- The ids in a block are its own and those in its parts. -/
lemma ids_congr {b c : Block} (hid : b.id = c.id) (hparts : b.parts = c.parts) : b.ids = c.ids := by
  rw [ids_eq_cons, ids_eq_cons, hid, hparts]

/-- Headers have no identifiers. -/
lemma ids_setHeader (b : Block) (header : Header) : (b.setHeader header).ids = b.ids := by
  cases b <;> cases header <;> exact ids_congr rfl rfl

lemma ids_clearHeader (b : Block) (kind : HeaderKind) : (b.clearHeader kind).ids = b.ids := by
  cases b <;> cases kind <;> exact ids_congr rfl rfl

/-- A new tag with the same identifier leaves all identifiers as they are. -/
lemma ids_withTag {tag : Tag} (h : tag.id = b.id) : (b.withTag tag).ids = b.ids := by
  cases b <;> exact ids_congr h rfl

/-- An empty slot is empty after its header was taken out. -/
lemma clearHeader_of_header? {kind : HeaderKind} (h : b.header? kind = none) :
    b.clearHeader kind = b := by
  cases b with
  | action tag a => rfl
  | forLoop tag headers body =>
    obtain ⟨init, condition, increment⟩ := headers
    cases kind <;> simp_all [header?, clearHeader, condition?]
  | whileLoop tag condition body => cases kind <;> simp_all [header?, clearHeader, condition?]
  | ifElse tag condition ifPart elsePart =>
    cases kind <;> simp_all [header?, clearHeader, condition?]

/-- A header attached leaves the identifiers as they are. -/
lemma ids_attach {filled : Block} {header : Header} (h : b.attach header = .ok filled) :
    filled.ids = b.ids := by
  unfold attach at h
  split at h
  · cases h
  · split at h
    · cases h
    · rw [← Except.ok.inj h, ids_setHeader]

/-- Why the compound block has no use for the header. -/
def Refuses (b : Block) (header : Header) (refusal : Refusal) : Prop :=
  ∃ kind, b.compoundKind? = some kind ∧
    match refusal with
    | .notPermitted => header.kind ∉ kind.permitted
    | .duplicate => header.kind ∈ kind.permitted ∧ (b.header? header.kind).isSome

/-- The refusals of `attach` are those that are written down in `Refuses`. -/
lemma attach_eq_error_iff {kind : CompoundKind} (header : Header) (refusal : Refusal)
    (h : b.compoundKind? = some kind) :
    b.attach header = .error refusal ↔ b.Refuses header refusal := by
  have hpermits : b.permits header.kind = decide (header.kind ∈ kind.permitted) := by
    simp [permits, h]
  unfold attach Refuses
  rw [hpermits]
  by_cases hmem : header.kind ∈ kind.permitted
  · cases hheader : b.header? header.kind with
    | none => cases refusal <;> simp [h, hmem]
    | some old => cases refusal <;> simp [h, hmem]
  · cases refusal <;> simp [h, hmem]

end Block

namespace Program

/-- A block in a slot is one of the program. -/
lemma mem_family_of_mem_blocks {p : Program} {b : Block} (h : b ∈ p.blocks) : b ∈ p.family := by
  rw [family, Block.families_eq_flatMap]
  exact List.mem_flatMap_of_mem h b.mem_family_self

variable {slots : List (Option Block)} {index : Nat}

/-- Slots in another order have the same identifiers in another order. -/
lemma ids_perm {slots slots' : List (Option Block)} (h : slots.Perm slots') :
    (mk slots).ids.Perm (mk slots').ids :=
  Block.idsOf_perm (h.filterMap _)

/-- A block put between the slots brings its identifiers along. -/
lemma ids_insertIdx_perm (h : index ≤ slots.length) (b : Block) :
    (mk (slots.insertIdx index (some b))).ids.Perm (b.ids ++ (mk slots).ids) := by
  rw [← ids_some]
  exact ids_perm (List.perm_insertIdx (some b) slots h)

/-- A slot erased takes the identifiers of its block with it. -/
lemma ids_eraseIdx_perm {b : Block} (h : slots[index]? = some (some b)) :
    (b.ids ++ (mk (slots.eraseIdx index)).ids).Perm (mk slots).ids := by
  obtain ⟨hlt, hb⟩ := List.getElem?_eq_some_iff.mp h
  rw [← ids_some, ← hb]
  exact ids_perm (List.getElem_cons_eraseIdx_perm hlt)

/-- A slot cleared gives up the identifiers of its block. -/
lemma ids_set_none_perm {slot : Option Block} (h : slots[index]? = some slot) :
    (Block.idsOf slot.toList ++ (mk (slots.set index none)).ids).Perm (mk slots).ids := by
  obtain ⟨hlt, rfl⟩ := List.getElem?_eq_some_iff.mp h
  have hset := ids_perm (List.set_perm_cons_eraseIdx hlt none)
  have hslot := ids_perm (List.getElem_cons_eraseIdx_perm hlt)
  rw [ids_cons] at hslot
  exact (hset.append_left _).trans hslot

/-- Gaps have no identifiers. -/
lemma ids_compact (p : Program) : p.compact.ids = p.ids := by
  obtain ⟨slots⟩ := p
  induction slots with
  | nil => rfl
  | cons slot slots ih =>
    cases slot with
    | none => exact ih
    | some b =>
      show (mk (some b :: slots.filter Option.isSome)).ids = _
      rw [ids_some, ids_some]
      exact congrArg (b.ids ++ ·) ih

end Program

/-- To put something with other ids into a place adds or takes away the same ids in the whole. -/
lemma Place.Lawful.ids_put_perm {α β : Type} {ids : α → List BlockId} {idsOf : β → List BlockId}
    {whole : β} {place : Place α β} (h : place.Lawful ids idsOf whole) {taken given : List BlockId}
    {a : α} (ha : (taken ++ ids a).Perm (given ++ ids place.content)) :
    (taken ++ idsOf (place.put a)).Perm (given ++ idsOf whole) := by
  obtain ⟨before, after, hput⟩ := h.ids_put
  rw [← h.put_content, hput, hput]
  have hmove := List.perm_append_comm_assoc taken before (ids a ++ after)
  have hback := List.perm_append_comm_assoc given before (ids place.content ++ after)
  have hinner := (ha.append_right after).append_left before
  simp only [List.append_assoc] at hinner ⊢
  exact hmove.trans (hinner.trans hback.symm)

namespace Program

variable {p : Program}

/-- How an edit goes: it is refused and the program stays as it was, or it is done and no block is
lost or doubled. -/
inductive Settles {α : Type} (p : Program) (given : List BlockId) (taken : α → List BlockId) :
    Edit α → Prop where
  | refused (error : EditError) : Settles p given taken (p.refuse error)
  | done {a : α} {q : Program} (h : (taken a ++ q.ids).Perm (given ++ p.ids)) :
    Settles p given taken (.ok a, q)

/-- An edit that puts something with the same ids into a place is settled. -/
lemma Settles.put {α β : Type} {ids : α → List BlockId} {place : Place α Program} {a : α} {b : β}
    (h : place.Lawful ids Program.ids p) (ha : (ids a).Perm (ids place.content)) :
    p.Settles [] (fun _ => []) (.ok b, place.put a) :=
  .done (h.ids_put_perm ha)

/-- `insert` takes up the identifiers of the block, or nothing happens. -/
theorem settles_insert (p : Program) (container : Container) (index : Nat) (b : Block) :
    p.Settles b.ids (fun _ => []) (p.insert container index b) := by
  unfold insert
  split
  · exact .refused _
  · split
    -- Into a slot: the index may be too great, and the first block may be locked.
    · split
      · exact .refused _
      · rename_i hindex
        split
        · exact .refused _
        · exact .done (ids_insertIdx_perm (Nat.le_of_not_lt hindex) b)
    -- Into a part: there may be no such part, and the index may be too great.
    · split
      · exact .refused _
      · rename_i list hlist
        split
        · exact .refused _
        · rename_i hindex
          have hperm := Block.idsOf_insertIdx_perm (Nat.le_of_not_lt hindex) b
          exact .done ((lawful_of_list? hlist).ids_put_perm hperm)

/-- `push` takes up the identifiers of the block, or nothing happens. -/
theorem settles_push (p : Program) (container : Container) (b : Block) :
    p.Settles b.ids (fun _ => []) (p.push container b) := by
  unfold push
  split
  · exact p.settles_insert _ _ b
  · split
    · exact .refused _
    · exact p.settles_insert _ _ b

/-- What is at a location can be taken out there. -/
lemma removeAt_of_at? {l : Location} {b : Block} (h : p.at? l = some b) (id : BlockId) :
    ∃ q, p.removeAt l id = (.ok b, q) ∧ (b.ids ++ q.ids).Perm p.ids := by
  obtain ⟨container, index⟩ := l
  cases container with
  | program =>
    have hslot : p.slots[index]? = some (some b) := Option.join_eq_some_iff.mp h
    refine ⟨⟨p.slots.eraseIdx index⟩, ?_, ids_eraseIdx_perm hslot⟩
    simp only [removeAt, hslot]
  | part holder part =>
    cases hlist : p.list? holder part with
    | error error =>
      simp only [at?, hlist] at h
      cases h
    | ok list =>
      have hb : list.content[index]? = some b := by simpa only [at?, hlist] using h
      have hperm := Block.idsOf_eraseIdx_perm hb
      refine ⟨list.put (list.content.eraseIdx index), ?_, ?_⟩
      · simp only [removeAt, hlist, hb]
      · rw [← List.nil_append p.ids]
        exact (lawful_of_list? hlist).ids_put_perm hperm

/-- A block that is not locked can be taken out of the container it is in. -/
theorem exists_removeChild (h : p.ids.Nodup) {container : Container} {index : Nat} {id : BlockId}
    {b : Block} (hl : p.locate? id = some ⟨container, index⟩) (hb : p.find? id = some b)
    (hlocked : b.locked = false) :
    ∃ q, p.removeChild container id = (.ok b, q) ∧ (b.ids ++ q.ids).Perm p.ids := by
  obtain ⟨c, hc, hat⟩ := exists_of_rel (at?_locate? h id) hl
  obtain rfl : b = c := Option.some.inj (hb.symm.trans hc)
  obtain ⟨q, hq, hperm⟩ := removeAt_of_at? hat id
  refine ⟨q, ?_, hperm⟩
  simp [removeChild, hl, hb, hlocked, hq]

/-- To take a block out is refused, or the block is the one asked for. -/
theorem removeChild_cases (h : p.ids.Nodup) (container : Container) (id : BlockId) :
    (∃ error, p.removeChild container id = p.refuse error) ∨
      ∃ b q, p.removeChild container id = (.ok b, q) ∧ p.find? id = some b ∧
        (∃ index, p.locate? id = some ⟨container, index⟩) ∧ b.locked = false ∧
          (b.ids ++ q.ids).Perm p.ids := by
  cases hl : p.locate? id with
  | none => exact .inl ⟨.notFound id, by simp only [removeChild, hl]⟩
  | some l =>
    -- The block that is located is also the one that is found and looked at for its lock.
    obtain ⟨b, hb, -⟩ := exists_of_rel (at?_locate? h id) hl
    by_cases hcontainer : l.container = container
    · subst hcontainer
      cases hlocked : b.locked with
      | true =>
        refine .inl ⟨.locked id, ?_⟩
        simp [removeChild, hl, hb, hlocked]
      | false =>
        obtain ⟨q, hq, hperm⟩ := exists_removeChild h hl hb hlocked
        exact .inr ⟨b, q, hq, hb, ⟨l.index, rfl⟩, hlocked, hperm⟩
    · refine .inl ⟨.wrongContainer id container, ?_⟩
      simp only [removeChild, hl, if_pos hcontainer]

/-- What a removal says about the block that comes out: it was in the program, in this container,
without a lock, and its identifiers are gone. -/
lemma of_removeChild_ok (h : p.ids.Nodup) {container : Container} {id : BlockId} {b : Block}
    {q : Program} (hok : p.removeChild container id = (.ok b, q)) :
    p.find? id = some b ∧ (∃ index, p.locate? id = some ⟨container, index⟩) ∧ b.locked = false ∧
      (b.ids ++ q.ids).Perm p.ids := by
  obtain ⟨error, herror⟩ | ⟨c, r, hr, hc⟩ := removeChild_cases h container id
  · rw [herror] at hok
    cases hok
  · rw [hr] at hok
    obtain ⟨hb, rfl⟩ := Prod.mk.inj hok
    obtain rfl := Except.ok.inj hb
    exact hc

/-- `removeChild` gives up the identifiers of the block, or nothing happens. -/
theorem settles_removeChild (h : p.ids.Nodup) (container : Container) (id : BlockId) :
    p.Settles [] Block.ids (p.removeChild container id) := by
  obtain ⟨error, herror⟩ | ⟨b, q, hq, -, -, -, hperm⟩ := removeChild_cases h container id
  · rw [herror]
    exact .refused error
  · rw [hq]
    exact .done hperm

/-- `remove` gives up the identifiers of the block, or nothing happens. -/
theorem settles_remove (h : p.ids.Nodup) (id : BlockId) :
    p.Settles [] Block.ids (p.remove id) := by
  unfold remove
  split
  · exact .refused _
  · exact settles_removeChild h _ id

/-- `clearSlot` gives up the identifiers in the slot, or nothing happens. -/
theorem settles_clearSlot (p : Program) (index : Nat) :
    p.Settles [] (fun slot => Block.idsOf slot.toList) (p.clearSlot index) := by
  unfold clearSlot
  split
  · exact .refused _
  · rename_i slot hslot
    split
    · exact .refused _
    · exact .done (ids_set_none_perm hslot)

lemma exists_place?_of_compound? {id : BlockId} {place : Place Block Program}
    (h : p.compound? id = .ok place) : p.place? id = some place := by
  unfold compound? at h
  split at h
  · cases h
  · rename_i found hfound
    split at h
    · cases h
    · rw [hfound, Except.ok.inj h]

/-- What `compound?` gives is the place of a compound block. -/
lemma isSome_of_compound? {id : BlockId} {place : Place Block Program}
    (h : p.compound? id = .ok place) : place.content.compoundKind?.isSome := by
  unfold compound? at h
  split at h
  · cases h
  · split at h
    · cases h
    · rename_i hkind
      rw [← Except.ok.inj h, Option.isSome_iff_ne_none]
      simpa using hkind

/-- `attach` leaves the identifiers as they are. -/
theorem settles_attach (p : Program) (id : BlockId) (header : Header) :
    p.Settles [] (fun _ => []) (p.attach id header) := by
  unfold attach
  split
  · exact .refused _
  · rename_i place hplace
    split
    · exact .refused _
    · rename_i filled hfilled
      have hlawful := lawful_of_place? (exists_place?_of_compound? hplace)
      exact .put hlawful (.of_eq (Block.ids_attach hfilled))

/-- A header is refused exactly when the compound block it is meant for refuses it, and is handed
back as it was given. -/
theorem attach_eq_headerRefused_iff (p : Program) (id block : BlockId) (header returned : Header)
    (refusal : Block.Refusal) :
    (p.attach id header).1 = .error (.refused (.headerRefused block returned refusal)) ↔
      block = id ∧ returned = header ∧ ∃ b, p.find? id = some b ∧ b.Refuses header refusal := by
  rw [← map_content_place?]
  cases hplace : p.place? id with
  | none => simp [attach, compound?, hplace, refuse]
  | some place =>
    cases hkind : place.content.compoundKind? with
    | none => simp [attach, compound?, hplace, hkind, refuse, Block.Refuses]
    | some kind =>
      have hcompound : p.compound? id = .ok place := by simp [compound?, hplace, hkind]
      have hrefuses := Block.attach_eq_error_iff header refusal hkind
      cases hattach : place.content.attach header with
      | error refusal' =>
        rw [hattach, Except.error.injEq] at hrefuses
        simp only [attach, hcompound, hattach, refuse, Option.map_some, Option.some.injEq,
          Except.error.injEq, EditFailure.refused.injEq, EditError.headerRefused.injEq,
          exists_eq_left', hrefuses]
        tauto
      | ok filled =>
        rw [hattach] at hrefuses
        simp only [attach, hcompound, hattach, Option.map_some, Option.some.injEq, exists_eq_left',
          ← hrefuses]
        simp

/-- `detach` leaves the identifiers as they are. -/
theorem settles_detach (p : Program) (id : BlockId) (kind : HeaderKind) :
    p.Settles [] (fun _ => []) (p.detach id kind) := by
  unfold detach
  split
  · exact .refused _
  · rename_i place hplace
    have hlawful := lawful_of_place? (exists_place?_of_compound? hplace)
    split
    · rename_i rest htake
      obtain ⟨hnone, rfl⟩ := Prod.mk.inj htake
      -- Nothing was in the slot, so the emptied block is the one that was there.
      rw [Block.clearHeader_of_header? hnone, hlawful.put_content]
      exact .refused _
    · rename_i header rest htake
      obtain ⟨-, rfl⟩ := Prod.mk.inj htake
      exact .put hlawful (.of_eq (Block.ids_clearHeader _ kind))

/-- `moveToTop` leaves the identifiers as they are. -/
theorem settles_moveToTop (p : Program) (id : BlockId) :
    p.Settles [] (fun _ => []) (p.moveToTop id) := by
  unfold moveToTop
  split
  · exact .refused _
  · split
    · exact .refused _
    · split
      · exact .refused _
      · rename_i hplace
        exact .put (lawful_of_place? hplace) (.of_eq (Block.ids_withTag rfl))

/-- New locks and layers leave the identifiers as they are. -/
lemma ids_setTag (p : Program) (id : BlockId) (locked : Option Bool) (layer : Option UInt32) :
    (p.setTag id locked layer).ids.Perm p.ids := by
  unfold setTag
  split
  · exact .refl _
  · rename_i b put hplace
    show ([] ++ ids _).Perm ([] ++ p.ids)
    exact (lawful_of_place? hplace).ids_put_perm (.of_eq (Block.ids_withTag rfl))

end Program

end BlockLang
