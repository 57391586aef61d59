import BlockLang.Proofs.Program.Splices

/-!
# Removals

Main statement: in a session, every block that is not locked can be taken out, and can be put back
where it was, unless it was first in the program and the block behind it is locked: no block goes
before a locked one that is first.
-/

namespace BlockLang

namespace Program

variable {p q : Program} {b : Block} {l : Location}

/-- The locked block that is first in the program when what is at the location is gone. -/
def lockedBehind? (p : Program) (l : Location) : Option Block :=
  if l = ⟨.program, 0⟩ then p.slots[1]?.join.filter Block.locked else none

/-- A block that was taken out of a slot goes back into it, unless it would come before a locked
one. -/
lemma insert_eraseIdx {index : Nat} (hslot : p.slots[index]? = some (some b))
    (hb : (mk (p.slots.eraseIdx index)).Admits b) :
    (mk (p.slots.eraseIdx index)).insert .program index b =
      match p.lockedBehind? ⟨.program, index⟩ with
      | none => (.ok b.id, p)
      | some next => (mk (p.slots.eraseIdx index)).refuse (.locked next.id) := by
  obtain ⟨hindex, hget⟩ := List.getElem?_eq_some_iff.mp hslot
  have hlength : ¬ (p.slots.eraseIdx index).length < index := by
    rw [List.length_eraseIdx_of_lt hindex]
    omega
  have hback : (p.slots.eraseIdx index).insertIdx index (some b) = p.slots := by
    rw [← hget]
    exact List.insertIdx_eraseIdx_getElem hindex
  rw [Admits] at hb
  unfold insert lockedBehind?
  simp only [hb, hlength, hback, if_false, Location.mk.injEq, true_and]
  cases index with
  | zero =>
    have hfirst : (p.slots.eraseIdx 0).head? = p.slots[1]? := by
      rw [List.eraseIdx_zero, List.head?_tail]
    simp only [hfirst, if_true]
    cases p.slots[1]?.join.filter Block.locked <;> rfl
  | succ index => rfl

/-- A block that was taken out of a list goes back into it. -/
lemma insert_put_eraseIdx {holder : BlockId} {part : Block.Part}
    {list : Place (List Block) Program} {index : Nat} (hlist : p.list? holder part = .ok list)
    (hget : list.content[index]? = some b)
    (hb : (list.put (list.content.eraseIdx index)).Admits b) :
    (list.put (list.content.eraseIdx index)).insert (.part holder part) index b =
      (.ok b.id, p) := by
  obtain ⟨hindex, rfl⟩ := List.getElem?_eq_some_iff.mp hget
  have hlength : ¬ (list.content.eraseIdx index).length < index := by
    rw [List.length_eraseIdx_of_lt hindex]
    omega
  rw [Admits] at hb
  -- The list without the block is found where the list was, and takes the block again.
  simp only [insert, hb, list?_put hlist, hlength, if_false,
    List.insertIdx_eraseIdx_getElem hindex, (lawful_of_list? hlist).put_content]

end Program

namespace Session

variable {s : Session} {p : Program} {b : Block}

/-- In every session a block that is not locked can be taken out of its program. To put it back
where it was gives the program from before, unless the block was first in the program and the one
behind it is locked. -/
theorem Reachable.removed_put_back (hs : s.Reachable) (hp : p ∈ s.programs) (hb : b ∈ p.family)
    (hlocked : b.locked = false) :
    ∃ l q, p.locate? b.id = some l ∧ p.remove b.id = (.ok b, q) ∧
      q.insert l.container l.index b =
        match p.lockedBehind? l with
        | none => (.ok b.id, p)
        | some next => q.refuse (.locked next.id) := by
  have h := hs.sound.nodup_of_mem hp
  obtain ⟨⟨container, index⟩, hlocate, hat⟩ := Program.exists_locate? h hb
  obtain ⟨q, hq, hperm⟩ := Program.removeAt_of_at? hat b.id
  -- What is left shares no identifier with the block, so the block can come back.
  obtain ⟨-, -, hdisjoint⟩ := List.nodup_append'.mp (hperm.nodup_iff.mpr h)
  have hadmits := Program.admits_of_disjoint hdisjoint
  refine ⟨_, q, hlocate, (Program.remove_eq_removeAt h hat hlocked).trans hq, ?_⟩
  cases container with
  | program =>
    have hslot : p.slots[index]? = some (some b) := Option.join_eq_some_iff.mp hat
    simp only [Program.removeAt, hslot] at hq
    cases hq
    exact Program.insert_eraseIdx hslot hadmits
  | part holder part =>
    cases hlist : p.list? holder part with
    | error error =>
      simp only [Program.removeAt, hlist] at hq
      cases hq
    | ok list =>
      have hget : list.content[index]? = some b := by simpa only [Program.at?, hlist] using hat
      simp only [Program.removeAt, hlist, hget] at hq
      cases hq
      exact Program.insert_put_eraseIdx hlist hget hadmits

/-- Two statements, of which the second is locked. -/
def beforeLocked : Program :=
  ⟨[some (.action { id := ⟨1⟩ } (.statement (.ofText "x = 1"))),
    some (.action { id := ⟨2⟩, locked := true } (.statement (.ofText "x = 2")))]⟩

lemma reachable_beforeLocked : Reachable ⟨[beforeLocked], [], ⟨3⟩⟩ :=
  .single (@Step.load {} [.statement "x = 1" false, .statement "x = 2" true])

/-- The first statement cannot be put back before the locked one. -/
theorem beforeLocked_not_put_back :
    ¬ ∀ (s : Session) (p : Program) (b : Block), s.Reachable → p ∈ s.programs → b ∈ p.family →
      b.locked = false → ∃ l q, p.locate? b.id = some l ∧ p.remove b.id = (.ok b, q) ∧
        q.insert l.container l.index b = (.ok b.id, p) := by
  intro h
  obtain ⟨l, q, hlocate, hremove, hinsert⟩ := h _ beforeLocked _ reachable_beforeLocked
    List.mem_cons_self List.mem_cons_self rfl
  cases hlocate
  cases hremove
  cases hinsert

/-- In the while loop around it there is no lock in the way of the first block. -/
theorem insideLoop_put_back :
    ∃ q, insideLoop.remove ⟨2⟩ = (.ok (.action { id := ⟨2⟩ } .print), q) ∧
      q.insert (.part ⟨1⟩ .body) 0 (.action { id := ⟨2⟩ } .print) = (.ok ⟨2⟩, insideLoop) := by
  have hmem : Block.action { id := ⟨2⟩ } .print ∈ insideLoop.family :=
    List.mem_cons_of_mem _ List.mem_cons_self
  obtain ⟨l, q, hlocate, hremove, hinsert⟩ :=
    reachable_insideLoop.removed_put_back List.mem_cons_self hmem rfl
  cases hlocate
  exact ⟨q, hremove, hinsert⟩

end Session

end BlockLang
