import BlockLang.Proofs.Run.Interruption
import BlockLang.Run.Buffer

/-!
# Rolling back

What an interrupted run of a program leaves behind: the program variable as it was before the block
that was cut short, the output and the diagnostics up to the interruption, and one diagnostic more
that names the block. A run that comes to no loop is never interrupted.
-/

namespace BlockLang

variable {ω : Type} {setting : Setting ω}

/-! ## Entering loops -/

mutual

/-- Whether a run of the block comes to a loop that has all its headers. -/
def Block.entersLoop (setting : Setting ω) (b : Block) (x : Float) (s : RunState ω) : Bool :=
  match b with
  | .forLoop _ ⟨some _, some _, some _⟩ _ | .whileLoop _ (some _) _ => true
  | .ifElse tag (some condition) ifPart elsePart =>
    let (holds, t) := s.test tag.id condition x
    if holds then Block.anyEntersLoop setting ifPart x t
    else Block.anyEntersLoop setting elsePart x t
  | _ => false

def Block.anyEntersLoop (setting : Setting ω) (bs : List Block) (x : Float) (s : RunState ω) :
    Bool :=
  match bs with
  | [] => false
  | b :: bs =>
    b.entersLoop setting x s ||
      match b.run setting x s with
      | (.value y, t) => Block.anyEntersLoop setting bs y t
      | _ => false

end

namespace Program

/-- Whether a run of the blocks in slots comes to a loop that has all its headers. -/
def slotsEnterLoop (setting : Setting ω) : List Block → Float → RunState ω → Bool
  | [], _, _ => false
  | b :: bs, x, s =>
    b.entersLoop setting x s ||
      match b.run setting x s with
      | (.value y, t) => slotsEnterLoop setting bs y t
      | (.leave _, t) => slotsEnterLoop setting bs x (t.report b.id .leaveOutsideLoop)
      | (.interrupted _, _) => false

def entersLoop (p : Program) (setting : Setting ω) (initial : Float) (channel : ω) : Bool :=
  slotsEnterLoop setting p.blocks initial { channel }

end Program

mutual

/-- Only in a loop can a block be interrupted. -/
theorem Block.entersLoop_of_interrupted (b : Block) {x : Float} {s : RunState ω}
    {why : Interruption} (h : (b.run setting x s).1 = .interrupted why) :
    b.entersLoop setting x s = true := by
  cases b with
  | action tag a =>
    cases a with
    | statement code => simp only [run, Action.run] at h; split at h <;> cases h
    | addCounter name => simp only [run, Action.run] at h; split at h <;> cases h
    | print => cases h
    | leave => cases h
  | forLoop tag headers body =>
    rcases forLoop_complete_or_missing tag headers body with ⟨init, condition, step, rfl⟩ | hm
    · rfl
    · rw [run_forLoop_of_missing hm] at h
      cases h
  | whileLoop tag condition body =>
    cases condition with
    | none => cases h
    | some condition => rfl
  | ifElse tag condition ifPart elsePart =>
    cases condition with
    | none => cases h
    | some condition =>
      rw [run_ifElse] at h
      rw [entersLoop]
      rcases hr : s.test tag.id condition x with ⟨_ | _, t⟩
      · rw [hr] at h
        exact Block.anyEntersLoop_of_interrupted elsePart (Ending.eq_of_backTo_eq_interrupted h)
      · rw [hr] at h
        exact Block.anyEntersLoop_of_interrupted ifPart (Ending.eq_of_backTo_eq_interrupted h)

/-- Only a list that enters a loop is interrupted. -/
theorem Block.anyEntersLoop_of_interrupted (bs : List Block) {x : Float} {s : RunState ω}
    {why : Interruption} (h : (Block.runAll setting bs x s).1 = .interrupted why) :
    Block.anyEntersLoop setting bs x s = true := by
  cases bs with
  | nil => cases h
  | cons b bs =>
    rw [anyEntersLoop]
    rcases hr : b.run setting x s with ⟨_ | _ | why', t⟩
    · rw [runAll_cons_of_value hr] at h
      rw [Bool.or_eq_true]
      exact .inr (Block.anyEntersLoop_of_interrupted bs h)
    · rw [runAll_cons_of_leave hr] at h
      cases h
    · have hb : (b.run setting x s).1 = .interrupted why' := by rw [hr]
      rw [Block.entersLoop_of_interrupted b hb, Bool.true_or]

end

/-! ## Programs -/

/-- The outcome `o` of a run that was interrupted in the block `k`, behind the blocks `before` of
the program, next to the outcome `free` of the run that nothing interrupts. -/
structure RolledBack (setting : Setting ω) (initial : Float) (channel : ω) (before : List Block)
    (k : Block) (why : Interruption) (o free : Outcome ω) : Prop where
  value : o.value = (Program.runSlots setting.uninterrupted before initial { channel }).value
  offered : ∃ pieces more, o.channel = setting.offer channel pieces ∧
    free.channel = setting.offer channel (pieces ++ more)
  /-- Output that is only ever added to is a prefix of the uninterrupted output. -/
  output : ∀ text : ω → List Char, (∀ c piece, text c <+: text (setting.write c piece).2) →
    text o.channel <+: text free.channel
  diagnostics : ∃ ds, ds <+: free.diagnostics ∧ (∀ d ∈ ds, ∀ w, d.complaint ≠ .interrupted w) ∧
    o.diagnostics = ds ++ [⟨k.id, .interrupted why⟩]

/-- Pieces of text only add to an output that writing only adds to. -/
lemma Setting.prefix_offer {text : ω → List Char}
    (h : ∀ c piece, text c <+: text (setting.write c piece).2) (channel : ω)
    (pieces : List String) : text channel <+: text (setting.offer channel pieces) := by
  induction pieces generalizing channel with
  | nil => exact List.prefix_refl _
  | cons piece pieces ih => exact (h channel piece).trans (ih _)

namespace Program

/-- A run of slots is the uninterrupted one, or it ends in a block of which the uninterrupted run
makes more. -/
lemma runSlots_eq_or_cut (setting : Setting ω) (bs : List Block) (x : Float) (s : RunState ω)
    (hs : s.scopes = []) :
    runSlots setting bs x s = runSlots setting.uninterrupted bs x s ∨
      ∃ before k after why t, bs = before ++ k :: after ∧
        runSlots setting bs x s = ⟨(runSlots setting.uninterrupted before x s).value, some why,
          t.report k.id (.interrupted why)⟩ ∧
        Later setting s t ∧ Later setting t (runSlots setting.uninterrupted bs x s).state := by
  induction bs generalizing x s with
  | nil => exact .inl rfl
  | cons b bs ih =>
    have hgo : ∀ y t, t.scopes = [] →
        Later setting t (runSlots setting.uninterrupted bs y t).state :=
      fun y t ht => (Later.runSlots bs y t ht).of_uninterrupted
    have hscopes : (b.run setting.uninterrupted x s).2.scopes = s.scopes := b.scopes_run x s
    have hb : Later setting s (b.run setting.uninterrupted x s).2 :=
      (Later.run b x s).of_uninterrupted
    have hne : ∀ why, (b.run setting.uninterrupted x s).1 ≠ .interrupted why :=
      b.run_ne_interrupted x s
    have hcut : Cut setting (b.run setting x s) (b.run setting.uninterrupted x s) :=
      b.cut_run x s
    rcases hf : b.run setting.uninterrupted x s with ⟨e, u⟩
    rw [hf] at hscopes hb hne
    rw [hs] at hscopes
    rcases hcut with heq | ⟨why, hr, hlater⟩
    -- Either this block runs to its end in both runs, or the run ends in it.
    · rw [hf] at heq
      cases e with
      | value y =>
        rcases ih y u hscopes with h | ⟨before, k, after, why, t, rfl, h, hst, htf⟩
        · exact .inl (by simp only [runSlots, heq, hf, h])
        · refine .inr ⟨b :: before, k, after, why, t, rfl, ?_, hb.trans hst, ?_⟩
          · simp only [runSlots, heq, hf, h]
          · simpa only [runSlots, hf] using htf
      | leave y =>
        rcases ih x (u.report b.id .leaveOutsideLoop) hscopes with
          h | ⟨before, k, after, why, t, rfl, h, hst, htf⟩
        · exact .inl (by simp only [runSlots, heq, hf, h])
        · refine .inr ⟨b :: before, k, after, why, t, rfl, ?_,
            hb.trans ((Later.report u b.id _).trans hst), ?_⟩
          · simp only [runSlots, heq, hf, h]
          · simpa only [runSlots, hf] using htf
      | interrupted why => exact absurd rfl (hne why)
    · rcases hrun : b.run setting x s with ⟨e', t⟩
      rw [hrun] at hr hlater
      rw [hf] at hlater
      simp only at hr hlater
      subst hr
      have hst : Later setting s t := by
        have h : Later setting s (b.run setting x s).2 := Later.run b x s
        rwa [hrun] at h
      refine .inr ⟨[], b, bs, why, t, rfl, by simp only [runSlots, hrun], hst, ?_⟩
      simp only [runSlots, hf]
      cases e with
      | value y => exact hlater.trans (hgo y u hscopes)
      | leave y => exact hlater.trans ((Later.report u b.id _).trans (hgo x _ hscopes))
      | interrupted why => exact absurd rfl (hne why)

/-- Without interruptions nothing is reported as interrupted. -/
lemma complaint_ne_interrupted {bs : List Block} {x : Float} {channel : ω} :
    ∀ d ∈ (runSlots setting.uninterrupted bs x { channel }).diagnostics,
      ∀ why, d.complaint ≠ .interrupted why := by
  refine forall_diagnostics_runSlots ?_ ?_ ?_ x channel
  · intro site _ y scopes c _ hc why h
    subst h
    generalize site.block = b at hc
    cases hc
  · intro b _ _ why h
    cases h
  · intro b _ y t why h
    exact absurd h (b.run_ne_interrupted y t why)

/-- Only a run that enters a loop is interrupted. -/
lemma slotsEnterLoop_of_interrupted {bs : List Block} {x : Float} {s : RunState ω}
    {why : Interruption} (h : (runSlots setting bs x s).interrupted = some why) :
    slotsEnterLoop setting bs x s = true := by
  induction bs generalizing x s with
  | nil => cases h
  | cons b bs ih =>
    rw [slotsEnterLoop, Bool.or_eq_true]
    rcases hr : b.run setting x s with ⟨e, t⟩
    simp only [runSlots, hr] at h
    cases e with
    | value y => exact .inr (ih h)
    | leave y => exact .inr (ih h)
    | interrupted why' =>
      have hb : (b.run setting x s).1 = .interrupted why' := by rw [hr]
      exact .inl (b.entersLoop_of_interrupted hb)

/-- Without a clock and a switch, no run is interrupted. -/
lemma interrupted_uninterrupted (bs : List Block) (x : Float) (s : RunState ω) :
    (runSlots setting.uninterrupted bs x s).interrupted = none := by
  induction bs generalizing x s with
  | nil => rfl
  | cons b bs ih =>
    have hne : ∀ why, (b.run setting.uninterrupted x s).1 ≠ .interrupted why :=
      b.run_ne_interrupted x s
    rw [runSlots]
    rcases hr : b.run setting.uninterrupted x s with ⟨_ | _ | why, t⟩
    · exact ih _ _
    · exact ih _ _
    · rw [hr] at hne
      exact absurd rfl (hne why)

/-- What `runSlots_eq_or_cut` says of a run that was interrupted. -/
lemma rolledBack_of_cut {bs before : List Block} {k : Block} {why : Interruption}
    {initial : Float} {channel : ω} {t : RunState ω}
    (hst : Later setting { channel } t)
    (htf : Later setting t (runSlots setting.uninterrupted bs initial { channel }).state) :
    RolledBack setting initial channel before k why
      ⟨(runSlots setting.uninterrupted before initial { channel }).value, some why,
        t.report k.id (.interrupted why)⟩
      (runSlots setting.uninterrupted bs initial { channel }) where
  value := rfl
  offered := by
    obtain ⟨pieces, hp⟩ := hst.channel
    obtain ⟨more, hm⟩ := htf.channel
    refine ⟨pieces, more, hp, ?_⟩
    rw [Outcome.channel, hm, hp, Setting.offer, Setting.offer, Setting.offer, List.foldl_append]
  output text htext := by
    obtain ⟨more, hm⟩ := htf.channel
    rw [Outcome.channel, Outcome.channel, hm]
    exact Setting.prefix_offer htext t.channel more
  diagnostics := by
    refine ⟨t.diagnostics.toList, htf.diagnostics, ?_, ?_⟩
    · exact fun d hd => complaint_ne_interrupted d (htf.diagnostics.subset hd)
    · rw [Outcome.diagnostics, RunState.diagnostics_report, Array.toList_push]

/-- However a run is interrupted, it is a rolled-back beginning of the run that nothing interrupts;
if it is not interrupted, it is that run. A run that comes to no loop is not interrupted. -/
theorem run_rolledBack_or_eq (p : Program) (setting : Setting ω) (initial : Float)
    (channel : ω) :
    let o := p.run setting initial channel
    let free := p.run setting.uninterrupted initial channel
    (∀ why, o.interrupted = some why → ∃ before k after,
      p.blocks = before ++ k :: after ∧
        RolledBack setting initial channel before k why o free) ∧
      (o.interrupted = none → o = free) ∧ free.interrupted = none ∧
      (p.entersLoop setting initial channel = false → o.interrupted = none) := by
  have hfree : (p.run setting.uninterrupted initial channel).interrupted = none :=
    interrupted_uninterrupted p.blocks initial { channel }
  have hcases := runSlots_eq_or_cut setting p.blocks initial { channel } rfl
  refine ⟨?_, ?_, hfree, ?_⟩
  · intro why hwhy
    -- A run that is as without interruption is not interrupted, so this one is cut short.
    rcases hcases with heq | ⟨before, k, after, why', t, hblocks, hcut, hst, htf⟩
    · rw [run, heq] at hwhy
      rw [run, hwhy] at hfree
      cases hfree
    · rw [run, hcut] at hwhy
      obtain rfl : why' = why := Option.some.inj hwhy
      refine ⟨before, k, after, hblocks, ?_⟩
      rw [run, hcut]
      exact rolledBack_of_cut hst htf
  · intro hnone
    rcases hcases with heq | ⟨before, k, after, why, t, _, hcut, _, _⟩
    · exact heq
    · rw [run, hcut] at hnone
      cases hnone
  · intro henters
    rcases hi : (p.run setting initial channel).interrupted with _ | why
    · rfl
    · rw [entersLoop, slotsEnterLoop_of_interrupted hi] at henters
      cases henters

end Program

/-- A program that comes to no end by itself. -/
def spinning : Program where
  slots := [
    some (.action ⟨⟨1⟩, false, 0⟩ .print), none,
    some (.ifElse ⟨⟨2⟩, false, 0⟩ (some (.ofText "true"))
      [.whileLoop ⟨⟨3⟩, false, 0⟩ (some (.ofText "true"))
        [.action ⟨⟨4⟩, false, 0⟩ (.statement (.ofText "x = -x"))]] [])]

/-- A run that is stopped in its second block keeps what the first one did. -/
theorem spinning_rolledBack :
    let setting := ({ timeLimit := some 5 } : Limits).setting (fun _ => some 3) none none
    let o := spinning.run setting 1 {}
    o.interrupted = some .timedOut ∧
      ∃ before k after, spinning.blocks = before ++ k :: after ∧
        RolledBack setting 1 {} before k .timedOut o (spinning.run setting.uninterrupted 1 {}) := by
  intro setting o
  have h : o.interrupted = some .timedOut := by decide +kernel
  exact ⟨h, (Program.run_rolledBack_or_eq spinning setting 1 {}).1 _ h⟩

end BlockLang
