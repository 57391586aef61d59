import BlockLang.Proofs.Program.Edits
import BlockLang.Proofs.Record.Fresh
import Mathlib.Logic.Relation

/-!
# Sessions

In a session blocks and programs are made, loaded and edited, and blocks that were taken out of one
program are put into the same one or into another. Main statements: whatever is done, no two blocks
of a session have the same id, so that all searches in a program agree and a refused edit leaves
the program as it was.
-/

namespace BlockLang

/-! ## Calls -/

/-- A call that edits a program. -/
inductive Call where
  | insert (container : Container) (index : Nat) (b : Block)
  | push (container : Container) (b : Block)
  | removeChild (container : Container) (id : BlockId)
  | remove (id : BlockId)
  | clearSlot (index : Nat)
  | compact
  | attach (id : BlockId) (header : Header)
  | detach (id : BlockId) (kind : HeaderKind)
  | moveToTop (id : BlockId)
  | setTag (id : BlockId) (locked : Option Bool) (layer : Option UInt32)

namespace Call

/-- The blocks that are given to a call. -/
def given : Call → List Block
  | insert _ _ b | push _ b => [b]
  | _ => []

/-- An edit with the blocks that it hands back. -/
def handing {α : Type} (blocks : α → List Block) (edit : Edit α) : Edit (List Block) :=
  (edit.1.map blocks, edit.2)

/-- Makes the call on a program. -/
def run (p : Program) : Call → Edit (List Block)
  | insert container index b => handing (fun _ => []) (p.insert container index b)
  | push container b => handing (fun _ => []) (p.push container b)
  | removeChild container id => handing (fun b => [b]) (p.removeChild container id)
  | remove id => handing (fun b => [b]) (p.remove id)
  | clearSlot index => handing Option.toList (p.clearSlot index)
  | compact => (.ok [], p.compact)
  | attach id header => handing (fun _ => []) (p.attach id header)
  | detach id kind => handing (fun _ => []) (p.detach id kind)
  | moveToTop id => handing (fun _ => []) (p.moveToTop id)
  | setTag id locked layer => (.ok [], p.setTag id locked layer)

/-- The blocks that are handed back. A refused call hands back none. -/
def handedBack (result : Except EditFailure (List Block)) : List Block :=
  match result with
  | .ok blocks => blocks
  | .error _ => []

end Call

namespace Program

variable {p : Program}

/-- What an edit gives up is what it hands back. -/
lemma Settles.handing {α : Type} {given : List BlockId} {taken : α → List BlockId} {edit : Edit α}
    (h : p.Settles given taken edit) {blocks : α → List Block}
    (htaken : ∀ a, Block.idsOf (blocks a) = taken a) :
    p.Settles given Block.idsOf (Call.handing blocks edit) := by
  cases h with
  | refused error => exact .refused error
  | done hperm =>
    refine .done ?_
    rw [htaken]
    exact hperm

/-- Every call is settled in a program whose blocks have different ids. -/
theorem settles_run (h : p.ids.Nodup) (call : Call) :
    p.Settles (Block.idsOf call.given) Block.idsOf (call.run p) := by
  have hone : ∀ b : Block, Block.idsOf [b] = b.ids := fun b => by simp
  cases call with
  | insert container index b =>
    rw [Call.given, hone]
    exact (p.settles_insert container index b).handing fun _ => rfl
  | push container b =>
    rw [Call.given, hone]
    exact (p.settles_push container b).handing fun _ => rfl
  | removeChild container id => exact (settles_removeChild h container id).handing hone
  | remove id => exact (settles_remove h id).handing hone
  | clearSlot index => exact (p.settles_clearSlot index).handing fun _ => rfl
  | compact => exact .done (.of_eq p.ids_compact)
  | attach id header => exact (p.settles_attach id header).handing fun _ => rfl
  | detach id kind => exact (p.settles_detach id kind).handing fun _ => rfl
  | moveToTop id => exact (p.settles_moveToTop id).handing fun _ => rfl
  | setTag id locked layer => exact .done (p.ids_setTag id locked layer)

end Program

/-! ## Steps -/

/-- The programs and the blocks in hand at one time, and the ids that are still free. -/
structure Session where
  programs : List Program := []
  hand : List Block := []
  supply : Supply := {}

/-- What can be made of a block in hand. -/
inductive Block.Becomes (b : Block) : Block → Prop where
  | attach {header : Header} {filled : Block} (h : b.attach header = .ok filled) : Becomes b filled
  | take (kind : HeaderKind) : Becomes b (b.take kind).2
  | tag (locked : Bool) (layer : UInt32) : Becomes b (b.withTag { b.tag with locked, layer })

/-- A change of tag or headers leaves the identifiers. -/
lemma Block.Becomes.ids_eq {b c : Block} (h : b.Becomes c) : c.ids = b.ids := by
  cases h with
  | attach h => exact Block.ids_attach h
  | take kind => exact b.ids_clearHeader kind
  | tag locked layer => exact Block.ids_withTag rfl

namespace Session

/-- One step of a session. -/
inductive Step : Session → Session → Prop where
  /-- A block is made, alone or with blocks inside it. -/
  | make {s : Session} (record : BlockRecord) {b : Block} {supply : Supply}
    (h : record.build s.supply = (some b, supply)) :
    Step s { s with hand := b :: s.hand, supply }
  /-- A block is made around blocks in hand. -/
  | wrap {programs : List Program} {b : Block} {hand : List Block} {supply : Supply}
    (h : b.tag = supply.tag.1) :
    Step ⟨programs, b.parts.flatMap Prod.snd ++ hand, supply⟩
      ⟨programs, b :: hand, supply.tag.2⟩
  /-- A program is begun without blocks. -/
  | empty {s : Session} : Step s { s with programs := {} :: s.programs }
  /-- A program is begun with a block that sets its variable. -/
  | new {s : Session} (initial : Float) :
    Step s { s with
      programs := .new s.supply.tag.1.id initial :: s.programs, supply := s.supply.tag.2 }
  | load {s : Session} (records : List BlockRecord) :
    Step s { s with
      programs := (Program.ofRecords records s.supply).1 :: s.programs
      supply := (Program.ofRecords records s.supply).2 }
  /-- A program is edited. Given blocks leave the hand, also when the call fails. -/
  | edit {before after : List Program} {p : Program} {hand : List Block} {supply : Supply}
    (call : Call) :
    Step ⟨before ++ p :: after, call.given ++ hand, supply⟩
      ⟨before ++ (call.run p).2 :: after, Call.handedBack (call.run p).1 ++ hand, supply⟩
  /-- A block in hand is changed. -/
  | change {programs : List Program} {b c : Block} {hand : List Block} {supply : Supply}
    (h : b.Becomes c) : Step ⟨programs, b :: hand, supply⟩ ⟨programs, c :: hand, supply⟩
  /-- Another block is taken up. -/
  | pick {programs : List Program} {hand hand' : List Block} {supply : Supply}
    (h : hand.Perm hand') : Step ⟨programs, hand, supply⟩ ⟨programs, hand', supply⟩
  | drop {programs : List Program} {b : Block} {hand : List Block} {supply : Supply} :
    Step ⟨programs, b :: hand, supply⟩ ⟨programs, hand, supply⟩
  | discard {before after : List Program} {p : Program} {hand : List Block} {supply : Supply} :
    Step ⟨before ++ p :: after, hand, supply⟩ ⟨before ++ after, hand, supply⟩

/-- The second session comes out of the first by steps. -/
def Reaches : Session → Session → Prop := Relation.ReflTransGen Step

/-- The session comes out of one without blocks. -/
def Reachable (s : Session) : Prop := Reaches {} s

/-! ## Ids of a session -/

/-- The ids of all blocks of a session. -/
def ids (s : Session) : List BlockId := s.programs.flatMap Program.ids ++ Block.idsOf s.hand

/-- No two blocks have the same id, and no free id is the id of a block. -/
structure Sound (s : Session) : Prop where
  nodup : s.ids.Nodup
  taken : ∀ id ∈ s.ids, id.number < s.supply.next

variable {s t : Session}

/-- In a sound session, every program has distinct identifiers. -/
lemma Sound.nodup_of_mem (h : s.Sound) {p : Program} (hp : p ∈ s.programs) : p.ids.Nodup :=
  (List.nodup_flatMap.mp h.nodup.of_append_left).1 p hp

/-- A block in the hand counts with the identifiers of the session. -/
lemma ids_hand_perm (programs : List Program) (given hand : List Block) (supply : Supply) :
    (ids ⟨programs, given ++ hand, supply⟩).Perm
      (Block.idsOf given ++ ids ⟨programs, hand, supply⟩) := by
  rw [ids, ids, Block.idsOf_append]
  exact List.perm_append_comm_assoc _ _ _

/-- A program counts with the identifiers of the session. -/
lemma ids_programs_perm (before after : List Program) (p : Program) (hand : List Block)
    (supply : Supply) :
    (ids ⟨before ++ p :: after, hand, supply⟩).Perm
      (p.ids ++ ids ⟨before ++ after, hand, supply⟩) := by
  simp only [ids, List.flatMap_append, List.flatMap_cons, List.append_assoc]
  exact List.perm_append_comm_assoc _ _ _

/-- A call concerns its program and the blocks that are given to it, and nothing else. -/
lemma ids_call_perm (before after : List Program) (p : Program) (given hand : List Block)
    (supply : Supply) :
    (ids ⟨before ++ p :: after, given ++ hand, supply⟩).Perm
      ((Block.idsOf given ++ p.ids) ++ ids ⟨before ++ after, hand, supply⟩) := by
  have hgiven := ids_hand_perm (before ++ p :: after) given hand supply
  have hp := ids_programs_perm before after p hand supply
  rw [List.append_assoc]
  exact hgiven.trans (hp.append_left _)

/-- The ids after a step are ids from before and newly given ones, each once. -/
lemma Step.exists_issues (h : Step s t) (hs : s.Sound) :
    ∃ fresh lost, s.supply.Issues t.supply fresh ∧ (lost ++ t.ids).Perm (fresh ++ s.ids) := by
  cases h with
  | @make _ record b supply h =>
    have hissues := record.issues_build s.supply
    rw [h] at hissues
    exact ⟨_, [], hissues, ids_hand_perm s.programs [b] s.hand supply⟩
  | @wrap programs b hand supply h =>
    -- The new id comes in front of ids that were in the hand before.
    have hid : b.id = supply.tag.1.id := congrArg Tag.id h
    have hinner := ids_hand_perm programs (b.parts.flatMap Prod.snd) hand supply
    have houter := ids_hand_perm programs [b] hand supply.tag.2
    rw [Block.idsOf_cons, Block.idsOf_nil, List.append_nil, b.ids_eq_cons, hid] at houter
    exact ⟨_, [], .tag supply, houter.trans (hinner.symm.cons _)⟩
  | empty => exact ⟨[], [], .nil _, .refl _⟩
  | new initial => exact ⟨_, [], .tag _, .refl _⟩
  | load records =>
    have hissues := Program.issues_ofRecords records s.supply
    exact ⟨_, [], hissues, ids_programs_perm [] s.programs _ s.hand _⟩
  | @edit before after p hand supply call =>
    -- Only in a program with different ids is a block taken out where it was located.
    have hp : p.ids.Nodup := hs.nodup_of_mem (List.mem_append_right _ List.mem_cons_self)
    have hsettles := Program.settles_run hp call
    generalize call.run p = edit at hsettles
    cases hsettles with
    | refused error =>
      -- The blocks that were given are lost.
      have hgiven := ids_hand_perm (before ++ p :: after) call.given hand supply
      exact ⟨[], Block.idsOf call.given, .nil _, hgiven.symm⟩
    | @done taken q hperm =>
      have hbefore := ids_call_perm before after p call.given hand supply
      have hafter := ids_call_perm before after q taken hand supply
      exact ⟨[], [], .nil _, hafter.trans ((hperm.append_right _).trans hbefore.symm)⟩
  | @change programs b c hand supply h =>
    refine ⟨[], [], .nil _, .of_eq ?_⟩
    show ids ⟨programs, c :: hand, supply⟩ = ids ⟨programs, b :: hand, supply⟩
    rw [ids, ids, Block.idsOf_cons, Block.idsOf_cons, h.ids_eq]
  | pick h => exact ⟨[], [], .nil _, (Block.idsOf_perm h.symm).append_left _⟩
  | @drop programs b hand supply =>
    exact ⟨[], _, .nil _, (ids_hand_perm programs [b] hand supply).symm⟩
  | @discard before after p hand supply =>
    exact ⟨[], _, .nil _, (ids_programs_perm before after p hand supply).symm⟩

/-- New ids do not meet those that are there. -/
lemma Sound.step (hs : s.Sound) (h : Step s t) : t.Sound := by
  obtain ⟨fresh, lost, hissues, hperm⟩ := h.exists_issues hs
  have hnodup : (fresh ++ s.ids).Nodup := by
    refine hissues.nodup.append hs.nodup ?_
    intro id hfresh hold
    have hle := hissues.free id hfresh
    have hlt := hs.taken id hold
    omega
  constructor
  · exact (hperm.nodup_iff.mpr hnodup).of_append_right
  · intro id hid
    rcases List.mem_append.mp (hperm.subset (List.mem_append_right lost hid)) with hid | hid
    · exact hissues.taken id hid
    · exact Nat.lt_of_lt_of_le (hs.taken id hid) hissues.le

/-- Every reachable session is sound. -/
theorem Reachable.sound (h : s.Reachable) : s.Sound := by
  induction h with
  | refl => exact ⟨List.nodup_nil, fun _ hid => absurd hid List.not_mem_nil⟩
  | tail _ hstep ih => exact ih.step hstep

/-- Steps never set the supply back. -/
lemma Reachable.next_le (hs : s.Reachable) (h : Reaches s t) : s.supply.next ≤ t.supply.next := by
  induction h with
  | refl => exact Nat.le_refl _
  | tail hreaches hstep ih =>
    have hsound := Reachable.sound (hs.trans hreaches)
    obtain ⟨_, _, hissues, _⟩ := hstep.exists_issues hsound
    exact Nat.le_trans ih hissues.le

end Session

/-! ## Searches -/

/-- All searches for an id in a program come to the same block. -/
structure Program.Coherent (p : Program) : Prop where
  /-- No two blocks have the same id. -/
  nodup : p.ids.Nodup
  /-- A block is found if it is visited. -/
  find?_iff : ∀ id b, p.find? id = some b ↔ b ∈ p.family ∧ b.id = id
  /-- The block that is changed is the one that is found. -/
  place?_eq : ∀ id, (p.place? id).map Place.content = p.find? id
  /-- A block is located if it is found, -/
  isSome_locate? : ∀ id, (p.locate? id).isSome = (p.find? id).isSome
  /-- and then it is what the container has at the index. -/
  at?_eq : ∀ id l, p.locate? id = some l → p.at? l = p.find? id
  blockCount_eq : p.blockCount = p.ids.toFinset.card
  /-- Taking a block out by its index stays within its list, -/
  removeChild_ne : ∀ container id, (p.removeChild container id).1 ≠ .error .overrun
  /-- and takes the block that was asked for, if it is in the container and not locked. -/
  removeChild_iff : ∀ container id b, (p.removeChild container id).1 = .ok b ↔
    p.find? id = some b ∧ (∃ index, p.locate? id = some ⟨container, index⟩) ∧ b.locked = false
  /-- All other blocks stay. -/
  removeChild_perm : ∀ container id b q, p.removeChild container id = (.ok b, q) →
    (b.ids ++ q.ids).Perm p.ids

/-- Distinct identifiers are all that coherence asks of a program. -/
theorem Program.coherent_of_nodup {p : Program} (h : p.ids.Nodup) : p.Coherent where
  nodup := h
  find?_iff := fun id b => find?_eq_some_iff h
  place?_eq := p.map_content_place?
  isSome_locate? := fun id => isSome_eq_of_rel (at?_locate? h id)
  at?_eq := by
    intro id l hl
    obtain ⟨b, hb, hat⟩ := exists_of_rel (at?_locate? h id) hl
    rw [hat, hb]
  blockCount_eq := by
    rw [List.toFinset_card_of_nodup h, ids, Block.idsOf, List.length_map]
    rfl
  removeChild_ne := by
    intro container id hoverrun
    obtain ⟨error, hq⟩ | ⟨b, q, hq, -⟩ := removeChild_cases h container id
    · rw [hq] at hoverrun
      cases hoverrun
    · rw [hq] at hoverrun
      cases hoverrun
  removeChild_iff := by
    intro container id b
    constructor
    · intro hok
      obtain ⟨hb, hl, hlocked, -⟩ := of_removeChild_ok h (Prod.ext hok rfl)
      exact ⟨hb, hl, hlocked⟩
    · rintro ⟨hb, ⟨index, hl⟩, hlocked⟩
      obtain ⟨q, hq, -⟩ := exists_removeChild h hl hb hlocked
      rw [hq]
  removeChild_perm := by
    intro container id b q hok
    obtain ⟨-, -, -, hperm⟩ := of_removeChild_ok h hok
    exact hperm

namespace Session

variable {s : Session} {p : Program}

/-- In every session all searches in a program agree. -/
theorem Reachable.coherent (hs : s.Reachable) (hp : p ∈ s.programs) : p.Coherent :=
  Program.coherent_of_nodup (hs.sound.nodup_of_mem hp)

/-- A while loop and a block after it. -/
def besideLoop : Program :=
  ⟨[some (.whileLoop { id := ⟨1⟩ } none []), some (.action { id := ⟨2⟩ } .print)]⟩

/-- The block has been moved into the loop. -/
def insideLoop : Program :=
  ⟨[some (.whileLoop { id := ⟨1⟩ } none [.action { id := ⟨2⟩ } .print])]⟩

lemma reachable_insideLoop : Reachable ⟨[insideLoop], [], ⟨3⟩⟩ := by
  have hload : Step {} ⟨[besideLoop], [], ⟨3⟩⟩ := @Step.load {} [.whileLoop none [], .print]
  have hremove := @Step.edit [] [] besideLoop [] ⟨3⟩ (.remove ⟨2⟩)
  have hpush := @Step.edit [] [] ⟨[some (.whileLoop { id := ⟨1⟩ } none [])]⟩ [] ⟨3⟩
    (.push (.part ⟨1⟩ .body) (.action { id := ⟨2⟩ } .print))
  exact .tail (.tail (.single hload) hremove) hpush

/-- A print block inside a loop is found where it stands. -/
theorem coherent_insideLoop :
    insideLoop.Coherent ∧ insideLoop.locate? ⟨2⟩ = some ⟨.part ⟨1⟩ .body, 0⟩ ∧
      insideLoop.at? ⟨.part ⟨1⟩ .body, 0⟩ = some (.action { id := ⟨2⟩ } .print) :=
  ⟨reachable_insideLoop.coherent List.mem_cons_self, rfl, rfl⟩

/-- In every session a call that fails leaves its program as it was. A header is handed back
exactly when there is no slot for it, or the slot is taken. -/
theorem Reachable.run_failed (hs : s.Reachable) (hp : p ∈ s.programs) :
    (∀ call failure, (Call.run p call).1 = .error failure → (Call.run p call).2 = p) ∧
      ∀ id block header returned refusal,
        (p.attach id header).1 = .error (.refused (.headerRefused block returned refusal)) ↔
          block = id ∧ returned = header ∧ ∃ b, p.find? id = some b ∧ b.Refuses header refusal := by
  refine ⟨?_, p.attach_eq_headerRefused_iff⟩
  intro call failure hfailure
  have hsettles := Program.settles_run (hs.sound.nodup_of_mem hp) call
  generalize call.run p = edit at hsettles hfailure
  cases hsettles with
  | refused error => rfl
  | done hperm => cases hfailure

/-- A while loop has no slot for an increment. -/
theorem attach_insideLoop_failed :
    (insideLoop.attach ⟨1⟩ (.increment 1)).1 =
        .error (.refused (.headerRefused ⟨1⟩ (.increment 1) .notPermitted)) ∧
      (Call.run insideLoop (.attach ⟨1⟩ (.increment 1))).2 = insideLoop := by
  obtain ⟨hsame, hrefused⟩ := reachable_insideLoop.run_failed (List.mem_cons_self)
  have hslot : HeaderKind.increment ∉ CompoundKind.whileLoop.permitted := by decide
  have hattach := (hrefused ⟨1⟩ ⟨1⟩ (.increment 1) (.increment 1) .notPermitted).mpr
    ⟨rfl, rfl, _, rfl, .whileLoop, rfl, hslot⟩
  exact ⟨hattach, hsame _ _ (by rw [Call.run, Call.handing, hattach]; rfl)⟩

end Session

end BlockLang
