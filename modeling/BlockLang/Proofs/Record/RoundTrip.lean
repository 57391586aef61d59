import BlockLang.Proofs.Program.Session

/-!
# Saving and loading

A record leaves out identities, layers, default names and locks other than those of statements.
Main statement: a program that is saved and loaded again has the same blocks at the same places up
to their tags, and all its ids are new.
-/

namespace BlockLang

/-! ## What a record keeps of a block -/

mutual

/-- The block without its identity and its layer, and without its lock unless it is a statement. -/
def Block.bare : Block → Block
  | .action tag (.statement code) => .action { id := ⟨0⟩, locked := tag.locked } (.statement code)
  | .action _ a => .action { id := ⟨0⟩ } a
  | .forLoop _ headers body => .forLoop { id := ⟨0⟩ } headers (Block.bareAll body)
  | .whileLoop _ condition body => .whileLoop { id := ⟨0⟩ } condition (Block.bareAll body)
  | .ifElse _ condition ifPart elsePart =>
    .ifElse { id := ⟨0⟩ } condition (Block.bareAll ifPart) (Block.bareAll elsePart)

def Block.bareAll : List Block → List Block
  | [] => []
  | b :: bs => b.bare :: Block.bareAll bs

end

/-! ## Defaults -/

/-- A name that is left out is the default one. -/
@[simp] lemma getD_unlessDefault (name : String) :
    (unlessDefault name).getD defaultCounter = name := by
  unfold unlessDefault
  split
  · rename_i h
    rw [h]
    rfl
  · rfl

/-- A text is parsed again to what it stood for. -/
@[simp] lemma Code.ofText_text {α : Type} {parse : String → Except ParseError α}
    (code : Code parse) : ofText code.text = code :=
  Code.ext rfl

@[simp] lemma Code.ofText_comp_text {α : Type} {parse : String → Except ParseError α} :
    (ofText ∘ text : Code parse → Code parse) = id :=
  funext ofText_text

/-- The start of a counter comes back, also if the counter has the default name. -/
lemma init_restored (init : Option Init) :
    ((init.map Init.value).map fun value =>
      (⟨(init.bind fun i => unlessDefault i.counter).getD defaultCounter, value⟩ : Init)) =
        init := by
  cases init with
  | none => rfl
  | some i => simp

/-! ## Round trip -/

open BlockRecord in
mutual

/-- A block that is saved and loaded is the same without what is not saved. -/
theorem Block.bare_build_record (b : Block) (supply : Supply) :
    (b.record.build supply).1.map Block.bare = some b.bare := by
  cases b with
  | action tag a =>
    cases a with
    | statement code => simp [record, build, bare, Supply.tag]
    | print => rfl
    | leave => rfl
    | addCounter name => simp [record, build, bare, Supply.tag]
  | forLoop tag headers body =>
    -- A loop without a start has no name for its counter, so none is lost with it.
    have hbody := Block.bareAll_buildList_records body supply
    have hinit := init_restored headers.init
    simp [record, build, bare, Supply.tag, hbody, hinit]
  | whileLoop tag condition body =>
    have hbody := Block.bareAll_buildList_records body supply
    simp [record, build, bare, Supply.tag, hbody]
  | ifElse tag condition ifPart elsePart =>
    have hif := Block.bareAll_buildList_records ifPart supply
    have helse := Block.bareAll_buildList_records elsePart (buildList (records ifPart) supply).2
    simp [record, build, bare, Supply.tag, hif, helse]

/-- Blocks that are saved and built again are the same without tags. -/
theorem Block.bareAll_buildList_records (bs : List Block) (supply : Supply) :
    Block.bareAll (buildList (records bs) supply).1 = Block.bareAll bs := by
  cases bs with
  | nil => rfl
  | cons b bs =>
    have hb := Block.bare_build_record b supply
    have hbs := Block.bareAll_buildList_records bs (b.record.build supply).2
    rw [Option.map_eq_some_iff] at hb
    obtain ⟨c, hc, hbare⟩ := hb
    simp [records, buildList, bareAll, hc, hbare, hbs]

end

/-- Slots come back in order, the empty ones too. -/
theorem Program.bare_ofRecords_records (p : Program) (supply : Supply) :
    (ofRecords p.records supply).1.slots.map (Option.map Block.bare) =
      p.slots.map (Option.map Block.bare) := by
  obtain ⟨slots⟩ := p
  induction slots generalizing supply with
  | nil => rfl
  | cons slot slots ih =>
    have hslots := ih ((slot.elim .empty Block.record).build supply).2
    refine congrArg₂ List.cons ?_ hslots
    cases slot with
    | none => rfl
    | some b => exact b.bare_build_record supply

/-- A program that is saved and loaded again has the same blocks at the same places. Its ids are
different, and none of them is the id of a block of the session now or at an earlier time. -/
theorem Session.Reachable.reload {r s : Session} (hr : r.Reachable) (hs : r.Reaches s)
    (p : Program) :
    (Program.ofRecords p.records s.supply).1.slots.map (Option.map Block.bare) =
        p.slots.map (Option.map Block.bare) ∧
      (Program.ofRecords p.records s.supply).1.ids.Nodup ∧
      ∀ id ∈ (Program.ofRecords p.records s.supply).1.ids, id ∉ r.ids := by
  have hissues := Program.issues_ofRecords p.records s.supply
  refine ⟨p.bare_ofRecords_records s.supply, hissues.nodup, ?_⟩
  intro id hid hold
  have htaken := hr.sound.taken id hold
  have hle := hr.next_le hs
  have hfree := hissues.free id hid
  omega

/-- A block that sets the variable, a gap, and a loop with a counter that is not called by default.
The statement in the loop is locked, and its text cannot be read. -/
def countdown : Program :=
  ⟨[some (.initializer ⟨1⟩ 5), none,
    some (.forLoop { id := ⟨4⟩ } ⟨some ⟨"k", 3⟩, some (.ofText "k > 0"), some (-1)⟩
      [.action { id := ⟨2⟩ } (.addCounter "k"),
        .action { id := ⟨3⟩, locked := true } (.statement (.ofText "x *="))])]⟩

/-- The loop is made without the start of its counter, given it in hand, and put at the end. The
block between was put there and taken out again. -/
lemma Session.reachable_countdown :
    Reachable ⟨[countdown], [.action { id := ⟨5⟩ } .print], ⟨6⟩⟩ := by
  let body : List Block := [.action { id := ⟨2⟩ } (.addCounter "k"),
    .action { id := ⟨3⟩, locked := true } (.statement (.ofText "x *="))]
  let started (init : Option Init) : Block :=
    .forLoop { id := ⟨4⟩ } ⟨init, some (.ofText "k > 0"), some (-1)⟩ body
  let loop := started (some ⟨"k", 3⟩)
  let print : Block := .action { id := ⟨5⟩ } .print
  let first : Option Block := some (.initializer ⟨1⟩ 5)
  have hnew : Step {} ⟨[⟨[first]⟩], [], ⟨2⟩⟩ := .new 5
  have hloop : Step ⟨[⟨[first]⟩], [], ⟨2⟩⟩ ⟨[⟨[first]⟩], [started none], ⟨5⟩⟩ :=
    .make (.forLoop none none (some "k > 0") (some (-1))
      [.addCounter (some "k"), .statement "x *=" true]) rfl
  have hinit : Step ⟨[⟨[first]⟩], [started none], ⟨5⟩⟩ ⟨[⟨[first]⟩], [loop], ⟨5⟩⟩ :=
    .change (@Block.Becomes.attach _ (.init ⟨"k", 3⟩) loop rfl)
  have hpush : Step ⟨[⟨[first]⟩], [loop], ⟨5⟩⟩ ⟨[⟨[first, some loop]⟩], [], ⟨5⟩⟩ :=
    @Step.edit [] [] ⟨[first]⟩ [] ⟨5⟩ (.push .program loop)
  have hprint : Step ⟨[⟨[first, some loop]⟩], [], ⟨5⟩⟩ ⟨[⟨[first, some loop]⟩], [print], ⟨6⟩⟩ :=
    .make .print rfl
  have hinsert : Step ⟨[⟨[first, some loop]⟩], [print], ⟨6⟩⟩
      ⟨[⟨[first, some print, some loop]⟩], [], ⟨6⟩⟩ :=
    @Step.edit [] [] ⟨[first, some loop]⟩ [] ⟨6⟩ (.insert .program 1 print)
  have hclear : Step ⟨[⟨[first, some print, some loop]⟩], [], ⟨6⟩⟩ ⟨[countdown], [print], ⟨6⟩⟩ :=
    @Step.edit [] [] ⟨[first, some print, some loop]⟩ [] ⟨6⟩ (.clearSlot 1)
  exact .tail (.tail (.tail (.tail (.tail (.tail (.single hnew) hloop) hinit) hpush) hprint)
    hinsert)
    hclear

/-- After the block in hand was dropped, the program comes back with its headers, its gap, its texts
and the lock of its statement, and under ids that the session did not have before. -/
theorem Session.countdown_reloaded :
    let earlier : Session := ⟨[countdown], [.action { id := ⟨5⟩ } .print], ⟨6⟩⟩
    let reloaded := (Program.ofRecords countdown.records ⟨6⟩).1
    earlier.Reachable ∧ earlier.Reaches ⟨[countdown], [], ⟨6⟩⟩ ∧
      reloaded.slots.map (Option.map Block.bare) = countdown.slots.map (Option.map Block.bare) ∧
      earlier.ids = [⟨1⟩, ⟨4⟩, ⟨2⟩, ⟨3⟩, ⟨5⟩] ∧ reloaded.ids = [⟨6⟩, ⟨9⟩, ⟨7⟩, ⟨8⟩] ∧
      ∀ id ∈ reloaded.ids, id ∉ earlier.ids := by
  intro earlier reloaded
  have hdrop : earlier.Reaches ⟨[countdown], [], ⟨6⟩⟩ := .single .drop
  obtain ⟨hslots, -, hfresh⟩ := reachable_countdown.reload hdrop countdown
  exact ⟨reachable_countdown, hdrop, hslots, rfl, rfl, hfresh⟩

end BlockLang
