import BlockLang.Proofs.Program.Initializer
import BlockLang.Proofs.Program.Splices

/-!
# Layers

A block that is raised gets a layer above those of the blocks beside it. There is a greatest layer,
which blocks can share. Main statement: in a session, to raise a block changes its layer and nothing
else, and blocks of one list that are raised in turn lie one above the other in the order of their
last raises, as far as the layers go.
-/

namespace BlockLang

/-! ## Layers -/

def greatestLayer : UInt32 := 4294967295

/-- The first layer is above the second one, or there is none above it. -/
def Overlies (upper lower : UInt32) : Prop :=
  lower < upper ∨ lower = greatestLayer ∧ upper = greatestLayer

instance lawfulOrderMaxLayer : Std.LawfulOrderMax UInt32 where
  max_eq_or a b := by
    show (if a ≤ b then b else a) = a ∨ (if a ≤ b then b else a) = b
    split
    · exact .inr rfl
    · exact .inl rfl
  max_le_iff a b c := by
    show (if a ≤ b then b else a) ≤ c ↔ a ≤ c ∧ b ≤ c
    split
    · grind
    · grind

/-- The layer above the given ones is not under the old one, and lies over all of them. -/
lemma layerAbove_spec (layers : List UInt32) (layer : UInt32) :
    layer ≤ Program.layerAbove layers layer ∧
      ∀ other ∈ layers, Overlies (Program.layerAbove layers layer) other := by
  unfold Program.layerAbove Overlies greatestLayer
  split
  · rename_i hnone
    rw [List.max?_eq_none_iff.mp hnone]
    exact ⟨UInt32.le_refl layer, fun other hother => absurd hother List.not_mem_nil⟩
  · rename_i top htop
    obtain ⟨-, hle⟩ := List.max?_eq_some_iff.mp htop
    split
    · refine ⟨UInt32.le_refl layer, fun other hother => ?_⟩
      have hother := hle other hother
      grind
    · split
      · refine ⟨by grind, fun other hother => ?_⟩
        have hother := hle other hother
        grind
      · refine ⟨by grind, fun other hother => ?_⟩
        have hother := hle other hother
        grind

namespace Block

variable {b : Block} {id : BlockId} {layer : UInt32}

def withLayer (layer : UInt32) (b : Block) : Block := b.withTag { b.tag with layer }

@[simp] lemma id_withLayer (layer : UInt32) (b : Block) : (b.withLayer layer).id = b.id := by
  cases b <;> rfl

@[simp] lemma layer_withLayer (layer : UInt32) (b : Block) :
    (b.withLayer layer).layer = layer := by
  cases b <;> rfl

lemma parts_withLayer (layer : UInt32) (b : Block) : (b.withLayer layer).parts = b.parts := by
  cases b <;> rfl

lemma emptied_withLayer (layer : UInt32) (b : Block) :
    (b.withLayer layer).emptied = b.emptied.withLayer layer := by
  cases b <;> rfl

end Block

namespace Program

variable {p q : Program} {b : Block} {id : BlockId} {f : Block → Block} {layer : UInt32}

/-- With distinct identifiers in a program, they are distinct in each of its blocks. -/
lemma nodup_ids_of_mem (h : p.ids.Nodup) (hb : b ∈ p.family) : b.ids.Nodup := by
  obtain ⟨place, hplace, rfl⟩ := exists_place? ((find?_eq_some_iff h).mpr ⟨hb, rfl⟩)
  have hlawful := lawful_of_place? hplace
  obtain ⟨before, after, hput⟩ := hlawful.ids_put
  rw [← hlawful.put_content, hput] at h
  exact h.of_append_left.of_append_right

/-! ## Changes that leave the blocks inside -/

section

variable (h : p.ids.Nodup) (hid : ∀ c : Block, c.id = id → (f c).id = id)
  (hparts : ∀ c : Block, c.id = id → (f c).parts = c.parts)

include h hid hparts

/-- A change that brings no identifiers keeps them distinct. -/
lemma nodup_modify : (p.modify id f).ids.Nodup ∧ (p.modify id f).ids ⊆ p.ids := by
  cases hplace : p.place? id with
  | none =>
    have hmem : id ∉ p.ids := by
      rw [← find?_eq_none_iff, ← map_content_place?, hplace]
      rfl
    rw [modify, map_modify_of_not_mem hmem]
    exact ⟨h, List.Subset.refl _⟩
  | some place =>
    have hc := id_of_place? hplace
    have hids : (f place.content).ids = place.content.ids :=
      Block.ids_congr ((hid _ hc).trans hc.symm) (hparts _ hc)
    have hperm : ([] ++ (place.put (f place.content)).ids).Perm ([] ++ p.ids) :=
      (lawful_of_place? hplace).ids_put_perm (.of_eq hids)
    rw [← put_eq_modify h hplace f]
    exact ⟨hperm.nodup_iff.mpr h, hperm.subset⟩

/-- After a change, a block is found as it was with the change in it. -/
lemma find?_modify_of_mem (hb : b ∈ p.family) :
    (p.modify id f).find? b.id = some (b.modify id f) := by
  refine find?_modify (fun c _ hc => ?_) hid h (nodup_modify h hid hparts).1 hb
  rw [Block.inside, ← hparts c hc]
  exact (f c).inside_subset_family

/-- The blocks of each container are those from before, the one that is changed as it is now. -/
theorem row?_modify (container : Container) :
    (p.modify id f).row? container =
      (p.row? container).map (List.map (Option.map (Block.modify id f))) := by
  cases container with
  | program => rfl
  | part holder part =>
    by_cases hmem : holder ∈ p.ids
    · obtain ⟨a, ha, rfl⟩ := List.mem_map.mp hmem
      have hbefore := (find?_eq_some_iff h).mpr ⟨ha, rfl⟩
      have hpart : (a.modify id f).part? part =
          (a.part? part).map (List.map (Block.modify id f)) := by
        by_cases hsame : a.id = id
        · -- What is inside the block is not changed with it.
          rw [Block.modify_of_id hsame, Block.part?, hparts a hsame, ← Block.part?]
          cases hbs : a.part? part with
          | none => rfl
          | some bs =>
            refine congrArg some (.symm (.trans (List.map_congr_left fun c hc => ?_)
              (List.map_id bs)))
            have hin := Block.mem_inside_of_part? hbs (Block.mem_families_of_mem hc)
            exact Block.modify_of_mem_inside (nodup_ids_of_mem h ha) hsame hin
        · exact Block.part?_modify_of_ne hsame part
      rw [row?, row?, hbefore, find?_modify_of_mem h hid hparts ha, Option.bind_some,
        Option.bind_some, hpart]
      cases a.part? part <;> simp
    · have hnot : holder ∉ (p.modify id f).ids :=
        fun hin => hmem ((nodup_modify h hid hparts).2 hin)
      rw [row?, row?, find?_eq_none_iff.mpr hmem, find?_eq_none_iff.mpr hnot]
      rfl

/-- No block has another location after the change. -/
lemma locate?_modify (other : BlockId) : (p.modify id f).locate? other = p.locate? other := by
  have hat : ∀ l, (p.modify id f).at? l = (p.at? l).map (Block.modify id f) := by
    intro l
    rw [at?_eq_row?, at?_eq_row?, row?_modify h hid hparts]
    cases p.row? l.container with
    | none => rfl
    | some row =>
      rw [Option.map_some, Option.bind_some, Option.bind_some, List.getElem?_map]
      rcases row[l.index]? with _ | _ | c <;> rfl
  ext l
  rw [locate?_eq_some_iff (nodup_modify h hid hparts).1, locate?_eq_some_iff h, hat]
  constructor
  · rintro ⟨b, hb, rfl⟩
    obtain ⟨a, ha, rfl⟩ := Option.map_eq_some_iff.mp hb
    exact ⟨a, ha, (Block.id_modify hid a).symm⟩
  · rintro ⟨a, ha, rfl⟩
    exact ⟨_, Option.map_eq_some_iff.mpr ⟨a, ha, rfl⟩, Block.id_modify hid a⟩

end

/-! ## Another layer for a block -/

/-- The layer of the block with the id. -/
def layer? (p : Program) (id : BlockId) : Option UInt32 := (p.find? id).map Block.layer

/-- The second program is the first, but the block with the id has the layer. -/
structure Relayered (p : Program) (id : BlockId) (layer : UInt32) (q : Program) : Prop where
  nodup : q.ids.Nodup
  locate?_eq : ∀ other, q.locate? other = p.locate? other
  find?_eq : q.find? id = (p.find? id).map (Block.withLayer layer)
  layer?_eq : ∀ other, other ≠ id → q.layer? other = p.layer? other
  /-- All lists hold the same blocks, and to each there is the same, but for the one layer. -/
  outline?_eq : ∀ container, q.outline? container =
    (p.outline? container).map
      (List.map (Option.map fun c => if c.id = id then c.withLayer layer else c))

/-- A new layer is seen only in the block that gets it. -/
lemma emptied_modify_withLayer (c : Block) : (c.modify id (Block.withLayer layer)).emptied =
    if c.emptied.id = id then c.emptied.withLayer layer else c.emptied := by
  have hid : c.emptied.id = c.id := by cases c <;> rfl
  rw [hid]
  split
  · rename_i hsame
    rw [Block.modify_of_id hsame, Block.emptied_withLayer]
  · rename_i hne
    exact Block.emptied_modify_of_ne hne

/-- To change one layer is all that `Relayered` asks for. -/
lemma relayered_modify (h : p.ids.Nodup) (hb : b ∈ p.family) (layer : UInt32) :
    p.Relayered b.id layer (p.modify b.id (Block.withLayer layer)) := by
  have hid : ∀ c : Block, c.id = b.id → (c.withLayer layer).id = b.id :=
    fun c hc => (Block.id_withLayer layer c).trans hc
  have hparts : ∀ c : Block, c.id = b.id → (c.withLayer layer).parts = c.parts :=
    fun c _ => Block.parts_withLayer layer c
  obtain ⟨hq, hsub⟩ := nodup_modify h hid hparts
  refine ⟨hq, locate?_modify h hid hparts, ?_, fun other hother => ?_, fun container => ?_⟩
  · rw [find?_modify_of_mem h hid hparts hb, (find?_eq_some_iff h).mpr ⟨hb, rfl⟩,
      Block.modify_of_id rfl]
    rfl
  · -- Another block is not touched, and a block that is not there has no layer before and after.
    by_cases hmem : other ∈ p.ids
    · obtain ⟨a, ha, rfl⟩ := List.mem_map.mp hmem
      rw [layer?, layer?, find?_modify_of_mem h hid hparts ha,
        (find?_eq_some_iff h).mpr ⟨ha, rfl⟩]
      exact congrArg (some ∘ Tag.layer) (Block.tag_modify_of_ne hother)
    · have hnot := fun hin => hmem (hsub hin)
      rw [layer?, layer?, find?_eq_none_iff.mpr hmem, find?_eq_none_iff.mpr hnot]
  · rw [outline?, row?_modify h hid hparts, outline?]
    cases p.row? container with
    | none => rfl
    | some row =>
      simp only [Option.map_some, List.map_map, Option.some.injEq]
      refine List.map_congr_left fun slot _ => ?_
      cases slot with
      | none => rfl
      | some c => exact congrArg some (emptied_modify_withLayer c)

/-! ## Raising a block -/

/-- The blocks in a container are those of its row without the gaps. -/
lemma blocksIn_of_row? {container : Container} {row : List (Option Block)}
    (h : p.row? container = some row) :
    p.blocksIn container = .ok (row.filterMap fun slot => slot) := by
  cases container with
  | program =>
    obtain rfl := Option.some.inj h
    rfl
  | part holder part =>
    obtain ⟨list, hlist, rfl⟩ := row?_part_eq_some_iff.mp h
    rw [blocksIn, hlist, List.filterMap_map]
    exact congrArg Except.ok (List.filterMap_some).symm

/-- The layer is over those of the blocks beside the one with the id. -/
def OverRow (id : BlockId) (layer : UInt32) (row : List (Option Block)) : Prop :=
  ∀ c, some c ∈ row → c.id ≠ id → Overlies layer c.layer

/-- A block of the program can be raised, which gives it a layer over those beside it. -/
theorem exists_moveToTop (h : p.ids.Nodup) (hb : b ∈ p.family) :
    ∃ l row layer q, p.locate? b.id = some l ∧ p.row? l.container = some row ∧
      p.moveToTop b.id = (.ok (), q) ∧ p.Relayered b.id layer q ∧ b.layer ≤ layer ∧
      OverRow b.id layer row := by
  obtain ⟨l, hlocate, hat⟩ := exists_locate? h hb
  rw [at?_eq_row?, Option.bind_eq_some_iff] at hat
  obtain ⟨row, hrow, -⟩ := hat
  obtain ⟨place, hplace, rfl⟩ := exists_place? ((find?_eq_some_iff h).mpr ⟨hb, rfl⟩)
  obtain ⟨hle, hover⟩ := layerAbove_spec
    (((row.filterMap fun slot => slot).filter (·.id ≠ place.content.id)).map Block.layer)
    place.content.layer
  refine ⟨l, row, _, _, hlocate, hrow, ?_, relayered_modify h hb _, hle, fun c hc hne => ?_⟩
  · rw [← put_eq_modify h hplace]
    simp only [moveToTop, hlocate, blocksIn_of_row? hrow, hplace]
    rfl
  · apply hover
    refine List.mem_map_of_mem (List.mem_filter.mpr ⟨?_, by simpa using hne⟩)
    exact List.mem_filterMap.mpr ⟨some c, hc, rfl⟩

/-! ## Raising blocks in turn -/

/-- The second program has all blocks where the first has them, each with its layer, unless it is
one of those that were raised. -/
structure StaysBut (p : Program) (raised : List BlockId) (q : Program) : Prop where
  nodup : q.ids.Nodup
  locate?_eq : ∀ id, q.locate? id = p.locate? id
  layer?_eq : ∀ id, id ∉ raised → q.layer? id = p.layer? id

/-- `moveToTop` changes nothing but the layer of one block. -/
lemma staysBut_moveToTop (h : p.ids.Nodup) (id : BlockId) :
    p.StaysBut [id] (p.moveToTop id).2 := by
  by_cases hmem : id ∈ p.ids
  · obtain ⟨b, hb, rfl⟩ := List.mem_map.mp hmem
    obtain ⟨l, row, layer, q, -, -, hmove, hq, -⟩ := exists_moveToTop h hb
    rw [hmove]
    exact ⟨hq.nodup, hq.locate?_eq, fun other hother => hq.layer?_eq other (by simpa using hother)⟩
  · have hlocate : p.locate? id = none := by
      rw [← Option.not_isSome_iff_eq_none, isSome_eq_of_rel (at?_locate? h id),
        find?_eq_none_iff.mpr hmem]
      exact Bool.false_ne_true
    have hmove : (p.moveToTop id).2 = p := by
      simp only [moveToTop, hlocate, refuse]
    rw [hmove]
    exact ⟨h, fun _ => rfl, fun _ _ => rfl⟩

/-- The program after blocks with the ids were raised in turn. -/
def raiseAll (p : Program) (ids : List BlockId) : Program :=
  Call.runAll p (ids.map .moveToTop)

/-- What one raise leaves as it is, a row of them does. -/
lemma staysBut_raiseAll (h : p.ids.Nodup) (ids : List BlockId) :
    p.StaysBut ids (p.raiseAll ids) := by
  induction ids generalizing p with
  | nil => exact ⟨h, fun _ => rfl, fun _ _ => rfl⟩
  | cons id ids ih =>
    have hstep := staysBut_moveToTop h id
    have hrun := ih hstep.nodup
    refine ⟨hrun.nodup, fun other => ?_, fun other hother => ?_⟩
    · exact (hrun.locate?_eq other).trans (hstep.locate?_eq other)
    · rw [List.mem_cons, not_or] at hother
      have hfirst := hstep.layer?_eq other (by simpa using hother.1)
      exact (hrun.layer?_eq other hother.2).trans hfirst

/-- Blocks are raised one after the other. -/
lemma raiseAll_append (p : Program) (ids ids' : List BlockId) :
    p.raiseAll (ids ++ ids') = (p.raiseAll ids).raiseAll ids' := by
  rw [raiseAll, List.map_append, Call.runAll, List.foldl_append]
  rfl

/-- Two blocks stand in the same list. -/
def Beside (p : Program) (x y : BlockId) : Prop :=
  ∃ container i j, p.locate? x = some ⟨container, i⟩ ∧ p.locate? y = some ⟨container, j⟩

/-- The block that was raised last lies over the one beside it. -/
lemma overlies_moveToTop (h : p.ids.Nodup) {x y : BlockId} (hne : x ≠ y) (hxy : p.Beside x y) :
    ∃ upper lower, (p.moveToTop y).2.layer? y = some upper ∧
      (p.moveToTop y).2.layer? x = some lower ∧ Overlies upper lower := by
  obtain ⟨container, i, j, hx, hy⟩ := hxy
  obtain ⟨a, ha, rfl⟩ := (locate?_eq_some_iff h).mp hx
  obtain ⟨b, hb, rfl⟩ := (locate?_eq_some_iff h).mp hy
  have hmem := mem_family_of_at? hb
  have hbefore := (find?_eq_some_iff h).mpr ⟨mem_family_of_at? ha, rfl⟩
  obtain ⟨l, row, layer, q, hlocate, hrow, hmove, hq, -, hover⟩ := exists_moveToTop h hmem
  rw [hmove]
  obtain rfl := Option.some.inj (hlocate.symm.trans hy)
  have hin : some a ∈ row := by
    rw [at?_eq_row?, hrow, Option.bind_some] at ha
    exact List.mem_of_getElem? (Option.join_eq_some_iff.mp ha)
  refine ⟨layer, a.layer, ?_, ?_, hover a hin hne⟩
  · rw [layer?, hq.find?_eq, (find?_eq_some_iff h).mpr ⟨hmem, rfl⟩]
    exact congrArg some (Block.layer_withLayer layer b)
  · rw [hq.layer?_eq a.id hne, layer?, hbefore]
    rfl

end Program

namespace Session

variable {s : Session} {p : Program}

/-- In every session a block can be raised, which changes its layer and nothing else. The layer is
then over those of the blocks beside it, and not under what it was. Of two blocks in one list, the
one that was raised last lies over the other. -/
theorem Reachable.raised (hs : s.Reachable) (hp : p ∈ s.programs) :
    (∀ b ∈ p.family, ∃ l row layer q, p.locate? b.id = some l ∧ p.row? l.container = some row ∧
        p.moveToTop b.id = (.ok (), q) ∧ p.Relayered b.id layer q ∧ b.layer ≤ layer ∧
        Program.OverRow b.id layer row) ∧
      ∀ before after x y, x ≠ y → p.Beside x y → x ∉ after → y ∉ after →
        ∃ upper lower, (p.raiseAll (before ++ y :: after)).layer? y = some upper ∧
          (p.raiseAll (before ++ y :: after)).layer? x = some lower ∧ Overlies upper lower := by
  have h := hs.sound.nodup_of_mem hp
  refine ⟨fun b hb => Program.exists_moveToTop h hb, ?_⟩
  intro before after x y hne hxy hx hy
  -- Both blocks are where they were when the later one is raised, and keep their layers after that.
  have hearlier := Program.staysBut_raiseAll h before
  have hstill : (p.raiseAll before).Beside x y := by
    obtain ⟨container, i, j, hx, hy⟩ := hxy
    exact ⟨container, i, j, (hearlier.locate?_eq x).trans hx, (hearlier.locate?_eq y).trans hy⟩
  obtain ⟨upper, lower, hupper, hlower, hover⟩ :=
    Program.overlies_moveToTop hearlier.nodup hne hstill
  have hstep := Program.staysBut_moveToTop hearlier.nodup y
  have hlater := Program.staysBut_raiseAll hstep.nodup after
  have hrun : p.raiseAll (before ++ y :: after) =
      ((p.raiseAll before).moveToTop y).2.raiseAll after := Program.raiseAll_append p before _
  rw [hrun]
  exact ⟨upper, lower, (hlater.layer?_eq y hy).trans hupper, (hlater.layer?_eq x hx).trans hlower,
    hover⟩

/-- The first block of the two is raised again after the second one. -/
theorem besideLoop_raised :
    besideLoop.Beside ⟨2⟩ ⟨1⟩ ∧ (besideLoop.raiseAll [⟨1⟩, ⟨2⟩, ⟨1⟩]).layer? ⟨2⟩ = some 2 ∧
      ∃ upper, (besideLoop.raiseAll [⟨1⟩, ⟨2⟩, ⟨1⟩]).layer? ⟨1⟩ = some upper ∧ 2 < upper := by
  have hreachable : Reachable ⟨[besideLoop], [], ⟨3⟩⟩ :=
    .single (@Step.load {} [.whileLoop none [], .print])
  have hbeside : besideLoop.Beside ⟨2⟩ ⟨1⟩ := ⟨.program, 1, 0, rfl, rfl⟩
  obtain ⟨-, hturns⟩ := hreachable.raised List.mem_cons_self
  obtain ⟨upper, lower, hupper, hlower, hover⟩ :=
    hturns [⟨1⟩, ⟨2⟩] [] ⟨2⟩ ⟨1⟩ (by decide) hbeside List.not_mem_nil List.not_mem_nil
  obtain rfl : 2 = lower := Option.some.inj hlower
  obtain hlt | ⟨hlower, -⟩ := hover
  · exact ⟨hbeside, rfl, upper, hupper, hlt⟩
  · exact absurd hlower (by decide)

/-- Two blocks, of which the second has the greatest layer. -/
def besideGreatest : Program :=
  ⟨[some (.action { id := ⟨1⟩ } .print),
    some (.action { id := ⟨2⟩, layer := greatestLayer } .print)]⟩

lemma reachable_besideGreatest : Reachable ⟨[besideGreatest], [], ⟨3⟩⟩ := by
  have hload := @Step.load {} [.print, .print]
  exact .tail (.single hload) (@Step.edit [] [] _ [] ⟨3⟩ (.setTag ⟨2⟩ none (some greatestLayer)))

/-- No layer is above the greatest one, so the first block only comes to the same. -/
theorem besideGreatest_not_above :
    ¬ ∀ (s : Session) (p : Program) (b : Block), s.Reachable → p ∈ s.programs → b ∈ p.family →
      ∃ l row layer q, p.locate? b.id = some l ∧ p.moveToTop b.id = (.ok (), q) ∧
        q.row? l.container = some row ∧ q.layer? b.id = some layer ∧
        ∀ c, some c ∈ row → c.id ≠ b.id → c.layer < layer := by
  intro h
  obtain ⟨l, row, layer, q, hlocate, hmove, hrow, hlayer, habove⟩ :=
    h _ besideGreatest _ reachable_besideGreatest List.mem_cons_self List.mem_cons_self
  cases hlocate
  cases hmove
  cases hrow
  cases hlayer
  exact absurd (habove _ (List.mem_cons_of_mem _ List.mem_cons_self) (by decide)) (by decide)

end Session

end BlockLang
