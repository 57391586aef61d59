import BlockLang.Proofs.Run.Counters
import BlockLang.Proofs.Run.Printing
import BlockLang.Proofs.Run.Rollback

/-!
# Programs one after the other

A run of a program in two parts is compared with a run of each part. Nothing but the program
variable goes from the first part to the second: counters are gone, and what was written and
reported is only added to. Main statement: the value is that of the second part run from the value
of the first, and output and diagnostics are those of the parts in a row.
-/

namespace BlockLang

variable {ω ω' : Type}

/-! ## Offering text -/

namespace Setting

variable (setting : Setting ω) (channel : ω)

/-- Pieces are offered one after the other. -/
lemma offer_append (pieces more : List String) :
    setting.offer channel (pieces ++ more) = setting.offer (setting.offer channel pieces) more :=
  List.foldl_append

end Setting

/-! ## The same program in two settings -/

section Same

variable {setting : Setting ω} {setting' : Setting ω'} {R : RunState ω → RunState ω' → Prop}

/-- Whatever is written, the states stay in the relation. -/
def WritesTogether (setting : Setting ω) (setting' : Setting ω')
    (R : RunState ω → RunState ω' → Prop) : Prop :=
  ∀ (id : BlockId) (pieces : List String) {s : RunState ω} {t : RunState ω'}, R s t →
    R (s.write setting id pieces) (t.write setting' id pieces)

mutual

/-- A block does the same in two settings that answer alike and are written to alike. -/
theorem Block.run_together (h : Parallel setting setting' (· = ·) R)
    (hwrite : WritesTogether setting setting' R) (b : Block) (x : Float) {s : RunState ω}
    {t : RunState ω'} (hR : R s t) : Together R (b.run setting x s) (b.run setting' x t) := by
  cases b with
  | action tag a =>
    by_cases ha : a = .print
    · subst ha
      exact ⟨rfl, hwrite tag.id _ hR⟩
    · exact h.action rfl x hR ha
  | forLoop tag headers body =>
    exact h.forLoop rfl headers (Block.runAll_together h hwrite body) x hR
  | whileLoop tag condition body =>
    exact h.whileLoop rfl condition (Block.runAll_together h hwrite body) x hR
  | ifElse tag condition ifPart elsePart =>
    exact h.ifElse rfl condition (Block.runAll_together h hwrite ifPart)
      (Block.runAll_together h hwrite elsePart) x hR

/-- Blocks run together in two settings in which what they write goes together. -/
theorem Block.runAll_together (h : Parallel setting setting' (· = ·) R)
    (hwrite : WritesTogether setting setting' R) (bs : List Block) (x : Float) {s : RunState ω}
    {t : RunState ω'} (hR : R s t) :
    Together R (Block.runAll setting bs x s) (Block.runAll setting' bs x t) := by
  cases bs with
  | nil => exact ⟨rfl, hR⟩
  | cons b bs =>
    exact BlockLang.runAll_together (Block.run_together h hwrite b x hR)
      (Block.runAll_together h hwrite bs)

end

/-- So do the blocks in slots. -/
lemma Program.runSlots_same_together (h : Parallel setting setting' (· = ·) R)
    (hwrite : WritesTogether setting setting' R) (bs : List Block) (x : Float) {s : RunState ω}
    {t : RunState ω'} (hR : R s t) :
    (runSlots setting bs x s).Together R (runSlots setting' bs x t) := by
  induction bs generalizing x s t with
  | nil => exact ⟨rfl, rfl, hR⟩
  | cons b bs ih =>
    exact runSlots_together h rfl (b.run_together h hwrite x hR) fun x {s t} hR => ih x hR

end Same

/-! ## What a run writes -/

/-- The output takes whatever is written to it. -/
def NeverRefuses (write : ω → String → Option String × ω) : Prop :=
  ∀ channel piece, (write channel piece).1 = none

/-- An output that keeps the pieces of text that are written to it. -/
def keepPiece (pieces : List String) (piece : String) : Option String × List String :=
  (none, pieces ++ [piece])

/-- The run of blocks in slots with an output that keeps what is written. -/
def Program.transcript (bs : List Block) (cap : UInt64) (x : Float) : Outcome (List String) :=
  runSlots (.writing cap keepPiece) bs x { channel := [] }

/-- Compares a run that starts anew and keeps what it writes with one that goes on from a state in
which it had reported `earlier` and had `used` as its channel. The counters are the same in `s` and
`t`, and the second run has since reported and written what the first one has. -/
structure RunState.Continues (setting : Setting ω) (earlier : List Diagnostic) (used : ω)
    (s : RunState (List String)) (t : RunState ω) : Prop where
  scopes : t.scopes = s.scopes
  diagnostics : t.diagnostics.toList = earlier ++ s.diagnostics.toList
  channel : t.channel = setting.offer used s.channel

section Continues

variable {cap : UInt64} {write : ω → String → Option String × ω} {earlier : List Diagnostic}
  {used : ω}

/-- A run that continues another one and a run with a channel of its own differ in nothing else. -/
lemma parallel_continues : Parallel (.writing cap keepPiece) (.writing cap write) (· = ·)
    (RunState.Continues (.writing cap write) earlier used) where
  cap := rfl
  asked _ := rfl
  scopes h := h.scopes
  check h := ⟨h.scopes, h.diagnostics, h.channel⟩
  rescope f h := ⟨congrArg f h.scopes, h.diagnostics, h.channel⟩
  report {s t id id' c} _ hid h := by
    subst hid
    refine ⟨h.scopes, ?_, h.channel⟩
    rw [RunState.diagnostics_report, RunState.diagnostics_report, Array.toList_push,
      Array.toList_push, h.diagnostics, List.append_assoc]

/-- What both write stays together. -/
lemma writesTogether_continues (hnever : NeverRefuses write) :
    WritesTogether (.writing cap keepPiece) (.writing cap write)
      (RunState.Continues (.writing cap write) earlier used) := by
  intro id pieces s t h
  induction pieces generalizing s t with
  | nil => exact h
  | cons piece pieces ih =>
    rcases hw : write t.channel piece with ⟨reason, c⟩
    have hreason : reason = none := by
      have hnone := hnever t.channel piece
      rwa [hw] at hnone
    subst hreason
    have hpiece : c = (Setting.writing cap write).offer used (s.channel ++ [piece]) := by
      rw [Setting.offer_append, ← h.channel]
      exact (congrArg Prod.snd hw).symm
    have hnext : RunState.Continues (.writing cap write) earlier used
        { s with channel := s.channel ++ [piece] } { t with channel := c } :=
      ⟨h.scopes, h.diagnostics, hpiece⟩
    have hwrite : t.write (.writing cap write) id (piece :: pieces) =
        RunState.write (.writing cap write) id pieces { t with channel := c } := by
      rw [RunState.write]
      simp only [Setting.writing, hw]
    rw [hwrite]
    exact ih hnext

end Continues

/-! ## Programs -/

namespace Program

variable {setting : Setting ω}

/-- After any number of slots the counters are as they were before. -/
lemma scopes_runSlots (bs : List Block) (x : Float) (s : RunState ω) :
    (runSlots setting bs x s).state.scopes = s.scopes := by
  induction bs generalizing x s with
  | nil => rfl
  | cons b bs ih =>
    have hb : (b.run setting x s).2.scopes = s.scopes := b.scopes_run x s
    rw [runSlots]
    rcases hr : b.run setting x s with ⟨y | y | why, t⟩ <;> rw [hr] at hb
    · exact (ih y t).trans hb
    · exact (ih x _).trans hb
    · exact hb

/-- Slots are run from where those before them have led. -/
lemma runSlots_append (bs cs : List Block) (x : Float) (s : RunState ω)
    (h : (runSlots setting bs x s).interrupted = none) :
    runSlots setting (bs ++ cs) x s =
      runSlots setting cs (runSlots setting bs x s).value (runSlots setting bs x s).state := by
  induction bs generalizing x s with
  | nil => rfl
  | cons b bs ih =>
    rw [List.cons_append]
    simp only [runSlots] at h ⊢
    rcases hr : b.run setting x s with ⟨y | y | why, t⟩ <;> rw [hr] at h
    · exact ih y t h
    · exact ih x _ h
    · cases h

/-- From any state without counters the slots do what they do in a run that starts anew. -/
lemma runSlots_continues (cap : UInt64) {write : ω → String → Option String × ω}
    (hnever : NeverRefuses write) (bs : List Block) (x : Float) {t : RunState ω}
    (ht : t.scopes = []) :
    (transcript bs cap x).Together
      (RunState.Continues (.writing cap write) t.diagnostics.toList t.channel)
      (runSlots (.writing cap write) bs x t) :=
  runSlots_same_together parallel_continues (writesTogether_continues hnever) bs x
    ⟨ht, (List.append_nil _).symm, rfl⟩

/-- The pieces of text that a run writes to an output that refuses nothing. -/
def printed (p : Program) (cap : UInt64) (initial : Float) : List String :=
  (transcript p.blocks cap initial).channel

/-- A program in two parts ends with the value of the second part run from the value of the first.
Its diagnostics are those of both parts, and it writes what the first part writes and then what the
second one does, also if the second part has an output of its own. -/
theorem run_append (slots more : List (Option Block)) (cap : UInt64) (initial : Float)
    {write : ω → String → Option String × ω} (hnever : NeverRefuses write)
    (channel channel' : ω) :
    let setting := Setting.writing cap write
    let whole := (mk (slots ++ more)).run setting initial channel
    let first := (mk slots).run setting initial channel
    let second := (mk more).run setting first.value channel'
    let pieces := (mk slots).printed cap initial
    let pieces' := (mk more).printed cap first.value
    whole.value = second.value ∧ whole.interrupted = none ∧
      whole.diagnostics = first.diagnostics ++ second.diagnostics ∧
      first.channel = setting.offer channel pieces ∧
      second.channel = setting.offer channel' pieces' ∧
      whole.channel = setting.offer channel (pieces ++ pieces') := by
  intro setting whole first second pieces pieces'
  have hblocks : (mk (slots ++ more)).blocks = (mk slots).blocks ++ (mk more).blocks :=
    List.filterMap_append
  have hnone : ∀ bs x (s : RunState ω), (runSlots setting bs x s).interrupted = none :=
    @interrupted_uninterrupted ω setting
  have hwhole : whole = runSlots setting (mk more).blocks first.value first.state := by
    show runSlots setting (mk (slots ++ more)).blocks initial { channel } = _
    rw [hblocks, runSlots_append _ _ _ _ (hnone _ _ _)]
    rfl
  -- The first part leaves no counter behind, so the second part starts as a run of its own does.
  have hscopes : first.state.scopes = [] := scopes_runSlots (mk slots).blocks initial { channel }
  have hfirst := runSlots_continues cap hnever (mk slots).blocks initial
    (t := { channel }) rfl
  have hsecond := runSlots_continues cap hnever (mk more).blocks first.value
    (t := { channel := channel' }) rfl
  have hrest := runSlots_continues cap hnever (mk more).blocks first.value hscopes
  rw [← hwhole] at hrest
  refine ⟨hrest.value.trans hsecond.value.symm, ?_, ?_, hfirst.state.channel,
    hsecond.state.channel, ?_⟩
  · rw [hwhole]
    exact hnone _ _ _
  · have hdiagnostics : second.diagnostics =
        (transcript (mk more).blocks cap first.value).diagnostics := hsecond.state.diagnostics
    rw [hdiagnostics]
    exact hrest.state.diagnostics
  · calc whole.channel = setting.offer first.channel pieces' := hrest.state.channel
      _ = setting.offer (setting.offer channel pieces) pieces' := by
        rw [show first.channel = _ from hfirst.state.channel]
        rfl
      _ = setting.offer channel (pieces ++ pieces') := (setting.offer_append _ _ _).symm

end Program

/-- A loop that is stopped at the cap, a gap, and a break that finds no loop. -/
def cappedSlots : List (Option Block) := [
  some (.forLoop { id := ⟨1⟩ } ⟨some ⟨"i", 0⟩, some (.ofText "i < 9"), some 1⟩
    [.action { id := ⟨2⟩ } (.addCounter "i"), .action { id := ⟨3⟩ } .print]),
  none,
  some (.action { id := ⟨4⟩ } .leave)]

/-- A statement about the counter of a loop that is over, and a print block. -/
def counterlessSlots : List (Option Block) := [
  some (.action { id := ⟨5⟩ } (.statement (.ofText "x += i"))),
  some (.action { id := ⟨6⟩ } .print)]

/-- A buffer without a limit refuses nothing. -/
lemma neverRefuses_buffer : NeverRefuses (Buffer.write none) := fun _ _ => rfl

/-- In both runs of the second part the counter of the first part is gone. -/
theorem run_cappedSlots_append :
    let setting := Setting.writing 2 (Buffer.write none)
    let whole := (Program.mk (cappedSlots ++ counterlessSlots)).run setting 0 {}
    let first := (Program.mk cappedSlots).run setting 0 {}
    let second := (Program.mk counterlessSlots).run setting first.value {}
    NeverRefuses (Buffer.write none) ∧ whole.value = second.value ∧
      whole.diagnostics = first.diagnostics ++ second.diagnostics ∧
      first.diagnostics.map Diagnostic.block = [⟨1⟩, ⟨4⟩] ∧
      second.diagnostics.map Diagnostic.block = [⟨5⟩] ∧
      whole.channel = setting.offer {} (["0", "\n", "1", "\n"] ++ ["1", "\n"]) := by
  intro setting whole first second
  obtain ⟨hvalue, -, hdiagnostics, -, -, hchannel⟩ :=
    Program.run_append cappedSlots counterlessSlots 2 0 neverRefuses_buffer {} {}
  have hprinted : (Program.mk cappedSlots).printed 2 0 = ["0", "\n", "1", "\n"] := by
    decide +kernel
  have hprinted' : (Program.mk counterlessSlots).printed 2 first.value = ["1", "\n"] := by
    decide +kernel
  refine ⟨neverRefuses_buffer, hvalue, hdiagnostics, by decide +kernel, by decide +kernel, ?_⟩
  rw [← hprinted, ← hprinted']
  exact hchannel

end BlockLang
