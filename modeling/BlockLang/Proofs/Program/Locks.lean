import BlockLang.Proofs.Program.Session

/-!
# Locked blocks

A call that takes a block out looks at the lock of that block and not at the locks of the blocks
inside it. Main statement: a locked block leaves its program exactly when a block around it, which
is not locked itself, is handed back.
-/

namespace BlockLang

/-! ## Blocks inside blocks -/

mutual

/-- What is inside a block of a block is inside the block. -/
theorem Block.family_subset {c : Block} (b : Block) (h : c ∈ b.family) : c.family ⊆ b.family := by
  cases b with
  | action tag a =>
    rw [family] at h
    rw [List.mem_singleton.mp h]
    exact List.Subset.refl _
  | forLoop tag headers body =>
    rw [family] at h ⊢
    obtain rfl | h := List.mem_cons.mp h
    · rw [family]
      exact List.Subset.refl _
    · exact List.subset_cons_of_subset _ (Block.families_subset body h)
  | whileLoop tag condition body =>
    rw [family] at h ⊢
    obtain rfl | h := List.mem_cons.mp h
    · rw [family]
      exact List.Subset.refl _
    · exact List.subset_cons_of_subset _ (Block.families_subset body h)
  | ifElse tag condition ifPart elsePart =>
    rw [family] at h ⊢
    obtain rfl | h := List.mem_cons.mp h
    · rw [family]
      exact List.Subset.refl _
    · refine List.subset_cons_of_subset _ ?_
      obtain h | h := List.mem_append.mp h
      · exact List.subset_append_of_subset_left _ (Block.families_subset ifPart h)
      · exact List.subset_append_of_subset_right _ (Block.families_subset elsePart h)

theorem Block.families_subset {c : Block} (bs : List Block) (h : c ∈ families bs) :
    c.family ⊆ families bs := by
  cases bs with
  | nil => cases h
  | cons b bs =>
    rw [families] at h ⊢
    obtain h | h := List.mem_append.mp h
    · exact List.subset_append_of_subset_left _ (Block.family_subset b h)
    · exact List.subset_append_of_subset_right _ (Block.families_subset bs h)

end

/-- The blocks inside a block, without the block itself. -/
def Block.inside (b : Block) : List Block := families (b.parts.flatMap Prod.snd)

/-! ## What is handed back -/

namespace Program

variable {p : Program}

/-- What a call that was given blocks hands back: nothing, or, if it was given none, a block that
was in the program and is not locked. -/
inductive HandsBack (p : Program) : (given handed : List Block) → Prop where
  | nothing {given : List Block} : HandsBack p given []
  | unlocked {c : Block} (hc : c ∈ p.family) (hlocked : c.locked = false) : HandsBack p [] [c]

namespace HandsBack

/-- An edit that hands nothing back keeps what it was given. -/
lemma handing_nil {α : Type} (given : List Block) (edit : Edit α) :
    p.HandsBack given (Call.handedBack (Call.handing (fun _ => []) edit).1) := by
  obtain ⟨_ | _, q⟩ := edit
  · exact .nothing
  · exact .nothing

/-- `removeChild` hands back nothing, or a block of the program that is not locked. -/
lemma removeChild (h : p.ids.Nodup) (container : Container) (id : BlockId) :
    p.HandsBack []
      (Call.handedBack (Call.handing (fun b => [b]) (p.removeChild container id)).1) := by
  obtain ⟨error, herror⟩ | ⟨b, q, hq, hb, -, hlocked, -⟩ := removeChild_cases h container id
  · rw [herror]
    exact .nothing
  · rw [hq]
    exact .unlocked ((find?_eq_some_iff h).mp hb).1 hlocked

/-- `clearSlot` hands back nothing, or a block of the program that is not locked. -/
lemma clearSlot (p : Program) (index : Nat) :
    p.HandsBack [] (Call.handedBack (Call.handing Option.toList (p.clearSlot index)).1) := by
  unfold Program.clearSlot
  split
  · exact .nothing
  · rename_i slot hslot
    split
    · exact .nothing
    · rename_i hunlocked
      cases slot with
      | none => exact .nothing
      | some b =>
        have hb : b ∈ p.blocks :=
          List.mem_filterMap.mpr ⟨some b, List.mem_of_getElem? hslot, rfl⟩
        exact .unlocked (mem_family_of_mem_blocks hb) (by simpa using hunlocked)

end HandsBack

/-- Every call looks at the lock of the block that it takes out. -/
theorem handsBack_run (h : p.ids.Nodup) (call : Call) :
    p.HandsBack call.given (Call.handedBack (call.run p).1) := by
  cases call with
  | insert container index b => exact .handing_nil [b] _
  | push container b => exact .handing_nil [b] _
  | removeChild container id => exact .removeChild h container id
  | remove id =>
    rw [Call.run, remove]
    split
    · exact .nothing
    · exact .removeChild h _ id
  | clearSlot index => exact .clearSlot p index
  | compact => exact .nothing
  | attach id header => exact .handing_nil [] _
  | detach id kind => exact .handing_nil [] _
  | moveToTop id => exact .handing_nil [] _
  | setTag id locked layer => exact .nothing

/-- In a program whose blocks have different ids, a block has the id of one that is in another block
only if it is in that block itself. -/
lemma mem_ids_iff (h : p.ids.Nodup) {b c : Block} (hb : b ∈ p.family) (hc : c ∈ p.family) :
    b.id ∈ c.ids ↔ b ∈ c.family := by
  constructor
  · intro hid
    obtain ⟨b', hb', hsame⟩ := List.mem_map.mp hid
    have hmem : b' ∈ p.family := Block.families_subset p.blocks hc hb'
    rwa [← List.inj_on_of_nodup_map h hmem hb hsame]
  · exact fun hmem => List.mem_map_of_mem hmem

/-- A block of the program is still there after a call, or it was handed back, alone or inside
another one. -/
theorem not_mem_ids_run_iff (h : p.ids.Nodup) (call : Call) {b : Block} (hb : b ∈ p.family) :
    b.id ∉ (call.run p).2.ids ↔
      ∃ c ∈ p.family, Call.handedBack (call.run p).1 = [c] ∧ c.locked = false ∧ b ∈ c.family := by
  have hsettles := settles_run h call
  have hhands := handsBack_run h call
  have hid : b.id ∈ p.ids := List.mem_map_of_mem hb
  generalize call.run p = edit at hsettles hhands ⊢
  generalize call.given = given at hsettles hhands
  cases hsettles with
  | refused error => simp [refuse, Call.handedBack, hid]
  | @done taken q hperm =>
    cases hhands with
    | nothing =>
      -- Nothing was taken out, so all ids are still there.
      have hstays : b.id ∈ q.ids := hperm.mem_iff.mpr (List.mem_append_right _ hid)
      simp [Call.handedBack, hstays]
    | @unlocked c hc hlocked =>
      have hperm : (c.ids ++ q.ids).Perm p.ids := by simpa using hperm
      obtain ⟨-, -, hdisjoint⟩ := List.nodup_append'.mp (hperm.nodup_iff.mpr h)
      -- The ids of the program are split between the block that was taken out and what is left.
      have hsplit : b.id ∉ q.ids ↔ b.id ∈ c.ids := by
        constructor
        · exact (List.mem_append.mp (hperm.mem_iff.mpr hid)).resolve_right
        · exact fun hmem => hdisjoint hmem
      rw [hsplit, mem_ids_iff h hb hc]
      simp [Call.handedBack, hc, hlocked]

end Program

namespace Session

variable {s : Session} {p : Program}

/-- In every session a locked block leaves its program in a call exactly when the call hands back a
block around it. That block is not locked, so it is another one. -/
theorem Reachable.locked_leaves_iff (hs : s.Reachable) (hp : p ∈ s.programs) (call : Call)
    {b : Block} (hb : b ∈ p.family) (hlocked : b.locked = true) :
    b.id ∉ (call.run p).2.ids ↔
      ∃ c ∈ p.family, Call.handedBack (call.run p).1 = [c] ∧ c.locked = false ∧ b ∈ c.inside := by
  rw [Program.not_mem_ids_run_iff (hs.sound.nodup_of_mem hp) call hb]
  refine exists_congr fun c => and_congr_right fun _ => and_congr_right fun _ =>
    and_congr_right fun hunlocked => ?_
  have hne : b ≠ c := by
    rintro rfl
    rw [hlocked] at hunlocked
    cases hunlocked
  rw [Block.family_eq_cons, List.mem_cons, or_iff_right hne, Block.inside]

/-- A while loop around a locked statement. -/
def lockedInside : Program :=
  ⟨[some (.whileLoop { id := ⟨2⟩ } none
    [.action { id := ⟨1⟩, locked := true } (.statement (.ofText "x = 1"))])]⟩

lemma reachable_lockedInside : Reachable ⟨[lockedInside], [], ⟨3⟩⟩ :=
  .single (@Step.load {} [.whileLoop none [.statement "x = 1" true]])

/-- The locked statement leaves with the loop around it. -/
theorem locked_leaves_with_loop :
    (Call.run lockedInside (.remove ⟨2⟩)).2 = ⟨[]⟩ ∧
      ∃ b ∈ lockedInside.family, b.locked = true ∧
        b.id ∉ (Call.run lockedInside (.remove ⟨2⟩)).2.ids := by
  refine ⟨rfl, _, List.mem_cons_of_mem _ List.mem_cons_self, rfl, ?_⟩
  refine (reachable_lockedInside.locked_leaves_iff List.mem_cons_self (.remove ⟨2⟩)
    (List.mem_cons_of_mem _ List.mem_cons_self) rfl).mpr ?_
  exact ⟨_, List.mem_cons_self, rfl, rfl, List.mem_cons_self⟩

end Session

end BlockLang
