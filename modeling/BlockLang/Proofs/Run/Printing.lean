import BlockLang.Proofs.Run.Together
import BlockLang.Run.Buffer

/-!
# What is printed

Printing writes to the output and does nothing else. A run is compared with the run of the program
without its print blocks. Main statement: both have the same value and the same diagnostics, apart
from those about the output, whatever the output accepts and refuses.
-/

namespace BlockLang

variable {ω ω' : Type}

/-- The setting of a run that nothing interrupts. -/
def Setting.writing (cap : UInt64) (write : ω → String → Option String × ω) : Setting ω where
  iterationCap := cap
  write := write
  interruption := fun _ _ => none

/-- What a run has to say, apart from what the output has refused. -/
def Outcome.unprinted (o : Outcome ω) : List Diagnostic :=
  o.diagnostics.filter (!·.complaint.isOutput)

/-! ## Programs without print blocks -/

def Block.isPrint : Block → Bool
  | action _ .print => true
  | _ => false

mutual

/-- The block without the print blocks inside it. -/
def Block.muted : Block → Block
  | .action tag a => .action tag a
  | .forLoop tag headers body => .forLoop tag headers (Block.mutedAll body)
  | .whileLoop tag condition body => .whileLoop tag condition (Block.mutedAll body)
  | .ifElse tag condition ifPart elsePart =>
    .ifElse tag condition (Block.mutedAll ifPart) (Block.mutedAll elsePart)

/-- The list without the print blocks in it and inside its blocks. -/
def Block.mutedAll : List Block → List Block
  | [] => []
  | b :: bs => if b.isPrint then Block.mutedAll bs else b.muted :: Block.mutedAll bs

end

namespace Block

variable {b : Block}

/-- A block that prints is left out. -/
lemma mutedAll_cons_of_print (h : b.isPrint = true) (bs : List Block) :
    mutedAll (b :: bs) = mutedAll bs := by
  rw [mutedAll, if_pos h]

/-- Any other block stays, muted inside. -/
lemma mutedAll_cons (h : b.isPrint = false) (bs : List Block) :
    mutedAll (b :: bs) = b.muted :: mutedAll bs := by
  rw [mutedAll, h, if_neg Bool.false_ne_true]

lemma id_muted (b : Block) : b.muted.id = b.id := by
  cases b <;> rfl

end Block

/-! ## States that differ in what was printed -/

/-- The counters are the same, and `t` has the diagnostics of `s` that are not about the output. -/
structure RunState.Muted (s : RunState ω) (t : RunState ω') : Prop where
  scopes : t.scopes = s.scopes
  diagnostics : t.diagnostics.toList = s.diagnostics.toList.filter (!·.complaint.isOutput)

namespace RunState.Muted

variable {s : RunState ω} {t : RunState ω'}

/-- Reports that are not about the output keep states muted. -/
lemma report (h : s.Muted t) (id : BlockId) {c : Complaint} (hc : c.isOutput = false) :
    (s.report id c).Muted (t.report id c) where
  scopes := h.scopes
  diagnostics := by
    have hkept : [Diagnostic.mk id c].filter (!·.complaint.isOutput) = [⟨id, c⟩] := by simp [hc]
    rw [diagnostics_report, diagnostics_report, Array.toList_push, Array.toList_push,
      List.filter_append, hkept, h.diagnostics]

/-- A report about the output is made by the one that prints only. -/
lemma reportOutput (h : s.Muted t) (id : BlockId) (reason : String) :
    (s.report id (.output reason)).Muted t where
  scopes := h.scopes
  diagnostics := by
    rw [diagnostics_report, Array.toList_push, List.filter_append, h.diagnostics]
    exact (List.append_nil _).symm

/-- Only the first of the two states is written to. -/
lemma write (h : s.Muted t) (setting : Setting ω) (id : BlockId) (pieces : List String) :
    (s.write setting id pieces).Muted t := by
  induction pieces generalizing s with
  | nil => exact h
  | cons piece pieces ih =>
    rw [RunState.write]
    rcases setting.write s.channel piece with ⟨reason, channel⟩
    have hwritten : RunState.Muted { s with channel } t := ⟨h.scopes, h.diagnostics⟩
    cases reason with
    | none => exact ih hwritten
    | some reason => exact hwritten.reportOutput id reason

end RunState.Muted

/-! ## Blocks -/

variable {cap : UInt64} {write : ω → String → Option String × ω}
  {write' : ω' → String → Option String × ω'}

/-- Two runs with the same cap and any two outputs differ in nothing else. -/
lemma parallel_muted : Parallel (.writing cap write) (.writing cap write') (· = ·)
    RunState.Muted where
  cap := rfl
  asked _ := rfl
  scopes h := h.scopes
  check h := ⟨h.scopes, h.diagnostics⟩
  rescope f h := ⟨congrArg f h.scopes, h.diagnostics⟩
  report hc hid h := hid ▸ h.report _ hc

/-- A print block leaves the program variable and all but the output as it is. -/
lemma Block.run_print {b : Block} (hb : b.isPrint = true) (cap : UInt64)
    (write : ω → String → Option String × ω) (x : Float) {s : RunState ω} {t : RunState ω'}
    (h : s.Muted t) :
    ∃ u, b.run (.writing cap write) x s = (.value x, u) ∧ u.Muted t := by
  cases b with
  | action tag a =>
    cases a with
    | print => exact ⟨_, rfl, h.write _ _ _⟩
    | _ => cases hb
  | _ => cases hb

mutual

/-- A block that does not print itself runs together with the block that is muted inside. -/
theorem Block.run_muted (b : Block) (hb : b.isPrint = false) (x : Float) {s : RunState ω}
    {t : RunState ω'} (h : s.Muted t) :
    Together RunState.Muted (b.run (.writing cap write) x s)
      (b.muted.run (.writing cap write') x t) := by
  cases b with
  | action tag a =>
    have ha : a ≠ .print := by
      rintro rfl
      cases hb
    exact parallel_muted.action rfl x h ha
  | forLoop tag headers body =>
    exact parallel_muted.forLoop rfl headers (Block.runAll_muted body) x h
  | whileLoop tag condition body =>
    exact parallel_muted.whileLoop rfl condition (Block.runAll_muted body) x h
  | ifElse tag condition ifPart elsePart =>
    exact parallel_muted.ifElse rfl condition (Block.runAll_muted ifPart)
      (Block.runAll_muted elsePart) x h

/-- Blocks in a row run together with those that are left of them. -/
theorem Block.runAll_muted (bs : List Block) (x : Float) {s : RunState ω} {t : RunState ω'}
    (h : s.Muted t) :
    Together RunState.Muted (Block.runAll (.writing cap write) bs x s)
      (Block.runAll (.writing cap write') (Block.mutedAll bs) x t) := by
  cases bs with
  | nil => exact ⟨rfl, h⟩
  | cons b bs =>
    cases hb : b.isPrint with
    | true =>
      -- The second run goes on with the rest at once.
      obtain ⟨u, hr, hu⟩ := Block.run_print hb cap write x h
      rw [mutedAll_cons_of_print hb, runAll_cons_of_value hr]
      exact Block.runAll_muted bs x hu
    | false =>
      rw [mutedAll_cons hb]
      exact runAll_together (Block.run_muted b hb x h) (Block.runAll_muted bs)

end

/-! ## Programs -/

namespace Program

/-- So do the blocks in slots. -/
lemma runSlots_muted (bs : List Block) (x : Float) {s : RunState ω} {t : RunState ω'}
    (h : s.Muted t) :
    (runSlots (.writing cap write) bs x s).Together RunState.Muted
      (runSlots (.writing cap write') (Block.mutedAll bs) x t) := by
  induction bs generalizing x s t with
  | nil => exact ⟨rfl, rfl, h⟩
  | cons b bs ih =>
    cases hb : b.isPrint with
    | true =>
      obtain ⟨u, hr, hu⟩ := Block.run_print hb cap write x h
      rw [Block.mutedAll_cons_of_print hb, runSlots, hr]
      exact ih x hu
    | false =>
      rw [Block.mutedAll_cons hb]
      exact runSlots_together parallel_muted b.id_muted.symm (b.run_muted hb x h)
        fun x {s t} h => ih x h

/-- A program without the print blocks of another one, in the same order, has the value and the
diagnostics of the other one, apart from those about the output. -/
lemma run_muted {p q : Program} (hq : q.blocks = Block.mutedAll p.blocks) (cap : UInt64)
    (initial : Float) (write : ω → String → Option String × ω)
    (write' : ω' → String → Option String × ω') (channel : ω) (channel' : ω') :
    (q.run (.writing cap write') initial channel').value =
        (p.run (.writing cap write) initial channel).value ∧
      (q.run (.writing cap write') initial channel').diagnostics =
        (p.run (.writing cap write) initial channel).unprinted := by
  have htogether : (p.run (.writing cap write) initial channel).Together RunState.Muted
      (q.run (.writing cap write') initial channel') := by
    rw [run, run, hq]
    exact runSlots_muted p.blocks initial ⟨rfl, rfl⟩
  exact ⟨htogether.value, htogether.state.diagnostics⟩

/-- What the output accepts and refuses makes no difference to a run, apart from the diagnostics
about it. Without print blocks, with or without gaps where they were, the value and all other
diagnostics are the same. -/
theorem run_eq_but_for_output (p : Program) (cap : UInt64) (initial : Float)
    (write : ω → String → Option String × ω) (write' : ω' → String → Option String × ω')
    (channel : ω) (channel' : ω') :
    ((p.run (.writing cap write') initial channel').value =
        (p.run (.writing cap write) initial channel).value ∧
      (p.run (.writing cap write') initial channel').unprinted =
        (p.run (.writing cap write) initial channel).unprinted) ∧
    ∀ q : Program, q.blocks = Block.mutedAll p.blocks →
      (q.run (.writing cap write') initial channel').value =
          (p.run (.writing cap write) initial channel).value ∧
        (q.run (.writing cap write') initial channel').diagnostics =
          (p.run (.writing cap write) initial channel).unprinted := by
  refine ⟨?_, fun q hq => run_muted hq cap initial write write' channel channel'⟩
  -- Both runs are compared with one run of the program without its print blocks.
  have hblocks : (mk ((Block.mutedAll p.blocks).map some)).blocks = Block.mutedAll p.blocks := by
    rw [blocks, List.filterMap_map]
    exact List.filterMap_some
  obtain ⟨hvalue, hdiagnostics⟩ := run_muted hblocks cap initial write write channel channel
  obtain ⟨hvalue', hdiagnostics'⟩ := run_muted hblocks cap initial write' write channel' channel
  exact ⟨hvalue'.symm.trans hvalue, hdiagnostics'.symm.trans hdiagnostics⟩

end Program

/-- A loop that only prints, and a print block and a statement behind it. -/
def chatty : Program where
  slots := [
    some (.forLoop { id := ⟨1⟩ } ⟨some ⟨"i", 0⟩, some (.ofText "i < 9"), some 1⟩
      [.action { id := ⟨2⟩ } .print]),
    some (.action { id := ⟨3⟩ } .print),
    some (.action { id := ⟨4⟩ } (.statement (.ofText "x += 1")))]

/-- The loop has nothing left in it, and the second slot is a gap. -/
def chattyMuted : Program where
  slots := [
    some (.forLoop { id := ⟨1⟩ } ⟨some ⟨"i", 0⟩, some (.ofText "i < 9"), some 1⟩ []),
    none,
    some (.action { id := ⟨4⟩ } (.statement (.ofText "x += 1")))]

/-- The output is full after one line and refuses two of three. Both loops stop at the cap of two
passes, and that is all that the run without print blocks reports. -/
theorem chatty_eq_but_for_output :
    let loud := chatty.run (.writing 2 (Buffer.write (some 1))) 0 {}
    let still := chattyMuted.run (.writing 2 (Buffer.write none)) 0 {}
    chattyMuted.blocks = Block.mutedAll chatty.blocks ∧ loud.diagnostics.length = 3 ∧
      still.value = loud.value ∧ still.diagnostics = loud.unprinted ∧
      still.diagnostics.length = 1 := by
  intro loud still
  have hblocks : chattyMuted.blocks = Block.mutedAll chatty.blocks := rfl
  obtain ⟨hvalue, hdiagnostics⟩ := (chatty.run_eq_but_for_output 2 0 (Buffer.write (some 1))
    (Buffer.write none) {} {}).2 chattyMuted hblocks
  exact ⟨hblocks, by decide +kernel, hvalue, hdiagnostics, by decide +kernel⟩

end BlockLang
