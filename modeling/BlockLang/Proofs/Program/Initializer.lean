import BlockLang.Proofs.Program.Session

/-!
# The block that begins a program

A locked block without others inside it that is first in a program cannot be taken out, and nothing
can be put before it. Main statement: whatever calls are made on a new program, the block that sets
its variable stays first.
-/

namespace BlockLang

namespace Call

/-- The call takes the lock off the block. -/
def Unlocks (id : BlockId) (call : Call) : Prop :=
  ∃ layer, call = .setTag id (some false) layer

/-- Makes calls one after the other, whether they fail or not. -/
def runAll (p : Program) (calls : List Call) : Program :=
  calls.foldl (fun p call => (call.run p).2) p

end Call

namespace Program

/-- In the first slot is a locked block that does `a`. -/
def BeginsWith (id : BlockId) (a : Action) (p : Program) : Prop :=
  ∃ layer rest, p.slots = some (.action ⟨id, true, layer⟩ a) :: rest

namespace BeginsWith

variable {id : BlockId} {a : Action} {p : Program}

/-! ## Looking past the first block -/

lemma head?_filter_locked (h : p.BeginsWith id a) :
    ∃ b, p.slots.head?.join.filter Block.locked = some b := by
  obtain ⟨layer, rest, hslots⟩ := h
  exact ⟨.action ⟨id, true, layer⟩ a, by rw [hslots]; rfl⟩

/-- The first block is found under its identifier, and it is locked. -/
lemma find?_locked (h : p.BeginsWith id a) : (p.find? id).any Block.locked = true := by
  obtain ⟨layer, rest, hslots⟩ := h
  have hblocks : p.blocks = .action ⟨id, true, layer⟩ a :: (mk rest).blocks := by
    rw [blocks, hslots]
    rfl
  have hfirst : (Block.action ⟨id, true, layer⟩ a).find? id = some (.action ⟨id, true, layer⟩ a) :=
    Block.find?_self _ rfl
  rw [find?, hblocks, Block.findIn?, hfirst]
  rfl

/-- A block that is located in a slot is the first one, or it is in a later slot. -/
lemma locate? (h : p.BeginsWith id a) {other : BlockId} {l : Location}
    (hl : p.locate? other = some l) :
    other = id ∨ l.container ≠ .program ∨ ∃ k, l.index = k + 1 := by
  obtain ⟨layer, rest, hslots⟩ := h
  rw [Program.locate?, hslots, locateFrom?] at hl
  split at hl
  · rename_i hid
    exact .inl hid.symm
  · -- Nothing is inside the first block, so the search goes on behind it.
    obtain ⟨b, -, hb⟩ := exists_of_rel (locateFrom?_rel other 1 rest) hl
    rcases hb with ⟨k, rfl, -⟩ | ⟨holder, -, part, -, hcontainer, -⟩
    · exact .inr (.inr ⟨k, Nat.add_comm 1 k⟩)
    · rw [hcontainer]
      exact .inr (.inl (by simp))

/-- The place of the first block is the first slot. -/
lemma place?_self (h : p.BeginsWith id a) {place : Place Block Program}
    (hplace : p.place? id = some place) :
    (∃ layer, place.content = .action ⟨id, true, layer⟩ a) ∧
      ∀ c, (place.put c).slots.head? = some (some c) := by
  obtain ⟨layer, rest, hslots⟩ := h
  rw [Program.place?, hslots, placeInSlots?, Block.place?, if_pos rfl] at hplace
  cases hplace
  exact ⟨⟨layer, rfl⟩, fun c => rfl⟩

/-- What is put into the place of another block leaves the first one. -/
lemma put_of_ne (h : p.BeginsWith id a) {other : BlockId} {place : Place Block Program}
    (hplace : p.place? other = some place) (hne : other ≠ id) (c : Block) :
    (place.put c).BeginsWith id a := by
  obtain ⟨layer, rest, hslots⟩ := h
  obtain ⟨inner, hinner, rfl⟩ := Option.map_eq_some_iff.mp hplace
  rw [hslots, placeInSlots?, Block.place?, if_neg hne.symm, Option.map_none, Option.none_or]
    at hinner
  obtain ⟨later, -, rfl⟩ := Option.map_eq_some_iff.mp hinner
  exact ⟨layer, later.put c, rfl⟩

/-- The first block is no compound block, so what is put into the place of one leaves it. -/
lemma put (h : p.BeginsWith id a) {other : BlockId} {place : Place Block Program}
    (hplace : p.place? other = some place) (hkind : place.content.compoundKind?.isSome)
    (c : Block) : (place.put c).BeginsWith id a := by
  refine h.put_of_ne hplace ?_ c
  rintro rfl
  obtain ⟨⟨layer, hcontent⟩, -⟩ := h.place?_self hplace
  rw [hcontent] at hkind
  cases hkind

/-- A list inside a block is never the first slot. -/
lemma putList (h : p.BeginsWith id a) {holder : BlockId} {part : Block.Part}
    {list : Place (List Block) Program} (hlist : p.list? holder part = .ok list)
    (bs : List Block) : (list.put bs).BeginsWith id a := by
  obtain ⟨place, cs, hplace, hcs, rfl⟩ := exists_place?_of_list? hlist
  exact h.put hplace (Block.isSome_compoundKind?_of_part? hcs) _

/-! ## Calls -/

/-- Nothing is inserted in front of the first block. -/
lemma insert (h : p.BeginsWith id a) (container : Container) (index : Nat) (b : Block) :
    (p.insert container index b).2.BeginsWith id a := by
  unfold Program.insert
  split
  · exact h
  · split
    · split
      · exact h
      · split
        · exact h
        · -- The index is not 0, because the block in the first slot is locked.
          rename_i hlocked
          obtain ⟨first, hfirst⟩ := h.head?_filter_locked
          obtain ⟨layer, rest, hslots⟩ := h
          obtain ⟨k, hk⟩ :=
            Nat.exists_eq_add_one_of_ne_zero fun hzero => hlocked first hzero hfirst
          refine ⟨layer, rest.insertIdx k (some b), ?_⟩
          rw [hk, hslots, List.insertIdx_succ_cons]
    · split
      · exact h
      · rename_i list hlist
        split
        · exact h
        · exact h.putList hlist _

lemma push (h : p.BeginsWith id a) (container : Container) (b : Block) :
    (p.push container b).2.BeginsWith id a := by
  unfold Program.push
  split
  · exact h.insert _ _ b
  · split
    · exact h
    · exact h.insert _ _ b

/-- Taking a slot behind the first one out leaves the first one. -/
lemma eraseSlot (h : p.BeginsWith id a) (index : Nat) :
    (mk (p.slots.eraseIdx (index + 1))).BeginsWith id a := by
  obtain ⟨layer, rest, hslots⟩ := h
  exact ⟨layer, rest.eraseIdx index, by rw [hslots, List.eraseIdx_cons_succ]⟩

/-- A removal anywhere but at the first slot leaves the first block. -/
lemma removeAt (h : p.BeginsWith id a) {other : BlockId} {l : Location}
    (hl : l.container ≠ .program ∨ ∃ k, l.index = k + 1) :
    (p.removeAt l other).2.BeginsWith id a := by
  unfold Program.removeAt
  split
  · rename_i hcontainer
    obtain hne | ⟨k, hk⟩ := hl
    · exact absurd hcontainer hne
    · rw [hk]
      split
      · exact h
      · exact h.eraseSlot k
      · exact h.eraseSlot k
  · split
    · exact h
    · rename_i list hlist
      split
      · exact h
      · exact h.putList hlist _

/-- The first block is locked and stays where it is. -/
lemma removeChild (h : p.BeginsWith id a) (container : Container) (other : BlockId) :
    (p.removeChild container other).2.BeginsWith id a := by
  unfold Program.removeChild
  split
  · exact h
  · rename_i l hl
    split
    · exact h
    · split
      · exact h
      · rename_i hunlocked
        refine h.removeAt ((h.locate? hl).resolve_left ?_)
        rintro rfl
        exact hunlocked h.find?_locked

lemma remove (h : p.BeginsWith id a) (other : BlockId) :
    (p.remove other).2.BeginsWith id a := by
  unfold Program.remove
  split
  · exact h
  · exact h.removeChild _ other

lemma clearSlot (h : p.BeginsWith id a) (index : Nat) :
    (p.clearSlot index).2.BeginsWith id a := by
  unfold Program.clearSlot
  split
  · exact h
  · rename_i slot hslot
    split
    · exact h
    · rename_i hunlocked
      obtain ⟨layer, rest, hslots⟩ := h
      cases index with
      | zero =>
        rw [hslots, List.getElem?_cons_zero, Option.some.injEq] at hslot
        rw [← hslot] at hunlocked
        cases hunlocked
      | succ index => exact ⟨layer, rest.set index none, by rw [hslots, List.set_cons_succ]⟩

lemma compact (h : p.BeginsWith id a) : p.compact.BeginsWith id a := by
  obtain ⟨layer, rest, hslots⟩ := h
  exact ⟨layer, rest.filter Option.isSome, by rw [Program.compact, hslots]; rfl⟩

lemma attach (h : p.BeginsWith id a) (other : BlockId) (header : Header) :
    (p.attach other header).2.BeginsWith id a := by
  unfold Program.attach
  split
  · exact h
  · rename_i place hcompound
    split
    · exact h
    · exact h.put (exists_place?_of_compound? hcompound) (isSome_of_compound? hcompound) _

lemma detach (h : p.BeginsWith id a) (other : BlockId) (kind : HeaderKind) :
    (p.detach other kind).2.BeginsWith id a := by
  unfold Program.detach
  split
  · exact h
  · rename_i place hcompound
    have hput := h.put (exists_place?_of_compound? hcompound) (isSome_of_compound? hcompound)
    split
    · exact hput _
    · exact hput _

/-- With another layer the first block is still the first block. -/
lemma retag (h : p.BeginsWith id a) {other : BlockId} {place : Place Block Program}
    (hplace : p.place? other = some place) {locked : Bool} {layer : UInt32}
    (hlocked : other = id → place.content.locked = true → locked = true) :
    (place.put (place.content.withTag ⟨place.content.id, locked, layer⟩)).BeginsWith id a := by
  by_cases hid : other = id
  · subst hid
    obtain ⟨⟨old, hcontent⟩, hput⟩ := h.place?_self hplace
    obtain ⟨rest, hrest⟩ := List.head?_eq_some_iff.mp
      (hput (place.content.withTag ⟨place.content.id, locked, layer⟩))
    rw [hcontent] at hrest hlocked ⊢
    obtain rfl : locked = true := hlocked rfl rfl
    exact ⟨layer, rest, hrest⟩
  · exact h.put_of_ne hplace hid _

lemma moveToTop (h : p.BeginsWith id a) (other : BlockId) :
    (p.moveToTop other).2.BeginsWith id a := by
  unfold Program.moveToTop
  split
  · exact h
  · split
    · exact h
    · split
      · exact h
      · rename_i hplace
        exact h.retag hplace fun _ hlocked => hlocked

/-- Only a call that unlocks the first block takes its lock. -/
lemma setTag (h : p.BeginsWith id a) {other : BlockId} {locked : Option Bool}
    {layer : Option UInt32} (hlock : ¬ Call.Unlocks id (.setTag other locked layer)) :
    (p.setTag other locked layer).BeginsWith id a := by
  unfold Program.setTag
  split
  · exact h
  · rename_i b put hplace
    refine h.retag hplace fun hid hlocked => ?_
    subst hid
    match locked with
    | none => exact hlocked
    | some true => rfl
    | some false => exact absurd ⟨layer, rfl⟩ hlock

/-- A call that does not take the lock off the first block leaves it first. -/
theorem run (h : p.BeginsWith id a) {call : Call} (hcall : ¬ call.Unlocks id) :
    (call.run p).2.BeginsWith id a := by
  cases call with
  | insert container index b => exact h.insert container index b
  | push container b => exact h.push container b
  | removeChild container other => exact h.removeChild container other
  | remove other => exact h.remove other
  | clearSlot index => exact h.clearSlot index
  | compact => exact h.compact
  | attach other header => exact h.attach other header
  | detach other kind => exact h.detach other kind
  | moveToTop other => exact h.moveToTop other
  | setTag other locked layer => exact h.setTag hcall

theorem runAll (h : p.BeginsWith id a) {calls : List Call}
    (hcalls : ∀ call ∈ calls, ¬ call.Unlocks id) : (Call.runAll p calls).BeginsWith id a := by
  induction calls generalizing p with
  | nil => exact h
  | cons call calls ih =>
    rw [List.forall_mem_cons] at hcalls
    exact ih (h.run hcalls.1) hcalls.2

end BeginsWith

/-- Whatever calls are made on a new program, apart from taking the lock off, the block that sets
the program variable stays first. It keeps its id, its lock and its text, and only its layer
changes. -/
theorem initializer_stays_first (id : BlockId) (initial : Float) (calls : List Call)
    (h : ∀ call ∈ calls, ¬ call.Unlocks id) :
    ∃ layer rest, (Call.runAll (new id initial) calls).slots =
      some ((Block.initializer id initial).withTag ⟨id, true, layer⟩) :: rest := by
  have hnew : (new id initial).BeginsWith id (.statement (.ofText (initializerText initial))) :=
    ⟨0, [], rfl⟩
  exact hnew.runAll h

/-- Calls that try to take the first block out and to put one before it, and then raise it above
another one. -/
def displacing : List Call := [
  .insert .program 0 (.action { id := ⟨2⟩ } .print), .removeChild .program ⟨1⟩, .remove ⟨1⟩,
  .clearSlot 0, .push .program (.whileLoop { id := ⟨3⟩, layer := 4 } none []),
  .insert (.part ⟨1⟩ .body) 0 (.action { id := ⟨4⟩ } .leave), .compact, .moveToTop ⟨1⟩]

/-- Calls that try to displace the first block change only its layer. -/
theorem initializer_stays_first_displacing :
    (∀ call ∈ displacing, ¬ call.Unlocks ⟨1⟩) ∧
      (Call.runAll (new ⟨1⟩ 3) displacing).family.map Block.layer = [5, 4] ∧
      ∃ layer rest, (Call.runAll (new ⟨1⟩ 3) displacing).slots =
        some ((Block.initializer ⟨1⟩ 3).withTag ⟨⟨1⟩, true, layer⟩) :: rest := by
  have hcalls : ∀ call ∈ displacing, ¬ call.Unlocks ⟨1⟩ := by simp [displacing, Call.Unlocks]
  exact ⟨hcalls, rfl, initializer_stays_first ⟨1⟩ 3 displacing hcalls⟩

end Program

end BlockLang
