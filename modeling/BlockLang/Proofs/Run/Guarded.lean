import BlockLang.Proofs.Program.Headers
import BlockLang.Proofs.Run.Steps

/-!
# Runs of blocks with headers missing

A run asks a compound block which of its headers are missing before it looks into the slots. Main
statements: a slot that the run then looks into is filled, so it makes no difference what would be
done otherwise, and in every session the header slots are used as they are meant to be.
-/

namespace BlockLang

namespace Block

variable {ω : Type}

/-- The headers that a block needs are there if none is missing. -/
lemma isSome_header?_of_missing {b : Block} (h : b.missing = []) {kind : HeaderKind}
    (hkind : b.permits kind = true) : (b.header? kind).isSome := by
  rw [missing_eq_filter, List.filter_eq_nil_iff] at h
  have hslot := h kind (by cases kind <;> simp)
  rw [hkind, Bool.true_and, Option.isNone_iff_eq_none] at hslot
  exact Option.isSome_iff_ne_none.mpr hslot

/-- Runs a compound block that has its headers. If one is not there after all, the run falls back
on `fallback`. -/
def runFilled (setting : Setting ω) (fallback : Ending × RunState ω) (b : Block) (x : Float)
    (s : RunState ω) : Ending × RunState ω :=
  match b with
  | .action .. => fallback
  | .forLoop tag headers body =>
    match headers.init, headers.condition, headers.increment with
    | some init, some condition, some step =>
      let (ending, s) :=
        loop setting .forLoop tag.id condition (forPass setting step body) x (s.pushScope init)
      (ending, s.popScope)
    | _, _, _ => fallback
  | .whileLoop tag condition body =>
    match condition with
    | some condition => loop setting .whileLoop tag.id condition (runAll setting body) x s
    | none => fallback
  | .ifElse tag condition ifPart elsePart =>
    match condition with
    | some condition =>
      let (holds, t) := s.test tag.id condition x
      let (ending, u) := runAll setting (if holds then ifPart else elsePart) x t
      (ending.backTo x, u)
    | none => fallback

/-- Runs a block, and a compound block only if none of its headers is missing. -/
def runGuarded (setting : Setting ω) (fallback : Ending × RunState ω) (b : Block) (x : Float)
    (s : RunState ω) : Ending × RunState ω :=
  match b.compoundKind? with
  | none => b.run setting x s
  | some kind =>
    if b.missing = [] then b.runFilled setting fallback x s
    else (.value x, s.report b.id (.missingHeader kind b.missing))

/-- No run ever falls back on `fallback`. -/
theorem run_eq_runGuarded (setting : Setting ω) (fallback : Ending × RunState ω) (b : Block)
    (x : Float) (s : RunState ω) :
    b.run setting x s = b.runGuarded setting fallback x s := by
  cases b with
  | action tag a => rfl
  | forLoop tag headers body =>
    unfold runGuarded
    obtain ⟨init, condition, step, rfl⟩ | hmissing := forLoop_complete_or_missing tag headers body
    · rfl
    · rw [run_forLoop_of_missing hmissing]
      simp only [compoundKind?, if_neg hmissing]
      rfl
  | whileLoop tag condition body =>
    cases condition with
    | none => rfl
    | some condition =>
      rw [run]
      rfl
  | ifElse tag condition ifPart elsePart =>
    cases condition with
    | none => rw [run]; rfl
    | some condition => exact run_ifElse

end Block

namespace Session

variable {s : Session}

/-- The header slots of all blocks of a session, in programs and in hand. -/
structure HeadersInOrder (s : Session) : Prop where
  /-- The slots of every block are used as they are meant to be, -/
  blocks : ∀ b ∈ s.family, b.SlotsInOrder
  /-- also by way of the program that a block is in. -/
  programs : ∀ p ∈ s.programs, p.HeadersInOrder
  /-- A header that is put into a slot is the one that is taken out, wherever the block was taken
  in between. -/
  putsIn : ∀ id header t, PutsIn id header s t → ∀ u, ReachesWith id header.kind t u →
    u.Gives id header.kind header
  /-- So is a header that was there from the start. -/
  gives : ∀ b ∈ s.family, ∀ kind header, b.header? kind = some header →
    ∀ t, ReachesWith b.id kind s t → t.Gives b.id kind header
  /-- A block that has no header missing has all that it needs, -/
  complete : ∀ b ∈ s.family, b.missing = [] →
    ∀ kind, b.permits kind = true → (b.header? kind).isSome
  /-- and a run never finds a slot empty that it looks into. -/
  run_eq : ∀ b ∈ s.family, ∀ {ω : Type} (setting : Setting ω) (fallback : Ending × RunState ω)
    (x : Float) (t : RunState ω), b.run setting x t = b.runGuarded setting fallback x t

/-- In every session headers are in the slots that are there for them. -/
theorem Reachable.headersInOrder (hs : s.Reachable) : s.HeadersInOrder where
  blocks := fun b _ => b.slotsInOrder
  programs := fun _ hp => Program.headersInOrder_of_nodup (hs.sound.nodup_of_mem hp)
  putsIn := fun _ _ _ hput _ h => hs.gives_of_putsIn hput h
  gives := fun _ hb _ _ hheader _ h => hs.gives hb hheader h
  complete := fun _ _ hmissing _ hkind => Block.isSome_header?_of_missing hmissing hkind
  run_eq := fun b _ _ setting fallback x t => b.run_eq_runGuarded setting fallback x t

/-- A while loop with a condition and a block in it. -/
def conditioned : Block :=
  .whileLoop { id := ⟨1⟩ } (some (.ofText "x < 1")) [.action { id := ⟨2⟩ } .print]

/-- The loop of a program gets a condition, and gives it back at once or in hand. -/
theorem headersInOrder_insideLoop :
    let header := Header.condition (.ofText "x < 1")
    HeadersInOrder ⟨[insideLoop], [], ⟨3⟩⟩ ∧
      insideLoop.attach ⟨1⟩ header = (.ok (), ⟨[some conditioned]⟩) ∧
      (Program.mk [some conditioned]).detach ⟨1⟩ .condition = (.ok header, insideLoop) ∧
      (conditioned.take .condition).1 = some header := by
  intro header
  have horder := reachable_insideLoop.headersInOrder
  have hattach : insideLoop.attach ⟨1⟩ header = (.ok (), ⟨[some conditioned]⟩) := rfl
  have hdetach := (horder.programs insideLoop List.mem_cons_self).detach_attach ⟨1⟩ header _ hattach
  have hremove : Step ⟨[⟨[some conditioned]⟩], [], ⟨3⟩⟩ ⟨[⟨[]⟩], [conditioned], ⟨3⟩⟩ :=
    @Step.edit [] [] ⟨[some conditioned]⟩ [] ⟨3⟩ (.remove ⟨1⟩)
  have hgives := horder.putsIn ⟨1⟩ header _ (@PutsIn.call _ _ [] [] _ _ [] ⟨3⟩ hattach) _
    (.single ⟨hremove, fun h => by cases h.length_hand⟩)
  exact ⟨horder, hattach, hdetach, hgives.hand conditioned List.mem_cons_self rfl⟩

end Session

end BlockLang
