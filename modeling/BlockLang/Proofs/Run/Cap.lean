import BlockLang.Proofs.Run.Interruption
import BlockLang.Run.Buffer

/-!
# Raising the iteration cap

A run is compared with the run under a higher cap. Both are the same until a loop reaches the lower
cap, and then the first one says so. What was reported stays reported, so a run that reports no cap
at its end has reached none on its way, and the higher cap changes nothing.
-/

namespace BlockLang

variable {ω : Type} {setting : Setting ω} {cap : UInt64}

/-- The setting with another cap. -/
def Setting.withCap (setting : Setting ω) (cap : UInt64) : Setting ω :=
  { setting with iterationCap := cap }

def Complaint.isCap : Complaint → Bool
  | iterationCap .. => true
  | _ => false

/-! ## States in which the cap was reported -/

/-- A loop was reported at its cap. -/
def RunState.Capped (s : RunState ω) : Prop :=
  ∃ d ∈ s.diagnostics.toList, d.complaint.isCap = true

/-- A report of the cap stays. -/
lemma RunState.Capped.later {s t : RunState ω} (h : s.Capped) (hst : Later setting s t) :
    t.Capped := by
  obtain ⟨d, hd, hcap⟩ := h
  exact ⟨d, hst.diagnostics.subset hd, hcap⟩

/-- There is a report of the cap once a loop has made it. -/
lemma RunState.capped_report (s : RunState ω) (id : BlockId) (kind : CompoundKind) :
    (s.report id (.iterationCap kind cap)).Capped := by
  refine ⟨⟨id, .iterationCap kind cap⟩, ?_, rfl⟩
  rw [diagnostics_report, Array.toList_push]
  exact List.mem_append_right _ List.mem_cons_self

/-- The result under the higher cap is the same, unless the lower one was reported. -/
def SameUnlessCapped (r high : Ending × RunState ω) : Prop :=
  ¬ r.2.Capped → high = r

/-- Without a report of the cap both runs are the same. -/
lemma SameUnlessCapped.eq {r high : Ending × RunState ω} (h : SameUnlessCapped r high)
    {ending : Ending} {t : RunState ω} (hr : r = (ending, t)) (ht : ¬ t.Capped) :
    high = (ending, t) := by
  subst hr
  exact h ht

/-! ## Loops -/

/-- A loop with more passes left goes the same way, as long as its body does and it does not run
out of passes. -/
lemma sameUnlessCapped_repeatWhile {test : Float → RunState ω → Bool × RunState ω}
    {body high : Float → RunState ω → Ending × RunState ω} {atCap atHigh : RunState ω → RunState ω}
    (htest : ∀ x s, Later setting s (test x s).2) (hlater : ∀ x s, Later setting s (body x s).2)
    (hcap : ∀ s, Later setting s (atCap s)) (hcapped : ∀ s, (atCap s).Capped)
    (hbody : ∀ x s, SameUnlessCapped (body x s) (high x s)) {passes more : Nat}
    (hle : passes ≤ more) (x : Float) (s : RunState ω) :
    SameUnlessCapped (repeatWhile setting test body atCap passes x s)
      (repeatWhile (setting.withCap cap) test high atHigh more x s) := by
  have hgo : ∀ passes x s, Later setting s (repeatWhile setting test body atCap passes x s).2 :=
    repeatWhile_rel Later.trans (fun _ => .of_eq rfl rfl) htest hlater hcap
  intro huncapped
  fun_induction repeatWhile setting test body atCap passes x s generalizing more with
  | case1 _ _ _ _ hi => exact repeatWhile_of_interrupted hi
  | case2 _ _ _ hi _ ht => exact repeatWhile_of_false hi ht
  | case3 _ _ _ t => exact absurd (hcapped t) huncapped
  | case4 x s hi t ht passes y u hb ih =>
    obtain ⟨more, rfl⟩ := Nat.exists_eq_add_one_of_ne_zero (Nat.ne_zero_of_lt hle)
    -- A cap reported in this pass would still be reported at the end.
    have hpass : ¬ u.Capped := fun h => huncapped (h.later (hgo passes y u))
    have hnext : repeatWhile (setting.withCap cap) test high atHigh (more + 1) x s =
        repeatWhile (setting.withCap cap) test high atHigh more y u :=
      repeatWhile_succ_of_value hi ht ((hbody x t).eq hb hpass)
    exact hnext.trans (ih (Nat.le_of_succ_le_succ hle) huncapped)
  | case5 x _ hi t ht passes y u hb =>
    obtain ⟨more, rfl⟩ := Nat.exists_eq_add_one_of_ne_zero (Nat.ne_zero_of_lt hle)
    exact repeatWhile_succ_of_leave hi ht ((hbody x t).eq hb huncapped)
  | case6 x _ hi t ht passes why u hb =>
    obtain ⟨more, rfl⟩ := Nat.exists_eq_add_one_of_ne_zero (Nat.ne_zero_of_lt hle)
    exact repeatWhile_succ_of_stopped hi ht ((hbody x t).eq hb huncapped)

/-- The loops of a program have as many passes as their cap allows. -/
lemma sameUnlessCapped_loop (hcap : setting.iterationCap ≤ cap) {kind : CompoundKind}
    {id : BlockId} {condition : ConditionCode}
    {body high : Float → RunState ω → Ending × RunState ω}
    (hlater : ∀ x s, Later setting s (body x s).2)
    (hbody : ∀ x s, SameUnlessCapped (body x s) (high x s)) (x : Float) (s : RunState ω) :
    SameUnlessCapped (loop setting kind id condition body x s)
      (loop (setting.withCap cap) kind id condition high x s) :=
  sameUnlessCapped_repeatWhile (Later.test id condition) hlater (fun s => .report s id _)
    (fun s => s.capped_report id kind) hbody (UInt64.le_iff_toNat_le.mp hcap) x s

/-- Passes of a loop are the same unless the cap is reported in their bodies. -/
lemma SameUnlessCapped.forPass {step : Float} {body : List Block} {x : Float} {s : RunState ω}
    (h : SameUnlessCapped (Block.runAll setting body x s)
      (Block.runAll (setting.withCap cap) body x s)) :
    SameUnlessCapped (forPass setting step body x s)
      (forPass (setting.withCap cap) step body x s) := by
  intro huncapped
  simp only [BlockLang.forPass] at huncapped ⊢
  rcases hr : Block.runAll setting body x s with ⟨_ | _ | _, t⟩ <;>
  · rw [hr] at huncapped
    rw [h.eq hr huncapped]

/-! ## Blocks -/

/-- A block without others inside does not ask for the cap. -/
lemma Action.run_withCap (id : BlockId) (x : Float) (s : RunState ω) (a : Action) :
    a.run (setting.withCap cap) id x s = a.run setting id x s := by
  cases a <;> rfl

mutual

/-- With a higher cap a block runs as before, unless the lower one is reported. -/
theorem Block.sameUnlessCapped_run (hcap : setting.iterationCap ≤ cap) (b : Block) (x : Float)
    (s : RunState ω) :
    SameUnlessCapped (b.run setting x s) (b.run (setting.withCap cap) x s) := by
  cases b with
  | action tag a => exact fun _ => a.run_withCap tag.id x s
  -- Taking the counter back removes no diagnostics, so the loop was not capped either.
  | forLoop tag headers body =>
    rcases forLoop_complete_or_missing tag headers body with ⟨init, condition, step, rfl⟩ | hm
    · intro huncapped
      rw [run_forLoop] at huncapped ⊢
      have hbody := Block.sameUnlessCapped_runAll hcap body
      have hloop : SameUnlessCapped
          (loop setting .forLoop tag.id condition (forPass setting step body) x (s.pushScope init))
          (loop (setting.withCap cap) .forLoop tag.id condition
            (forPass (setting.withCap cap) step body) x (s.pushScope init)) :=
        sameUnlessCapped_loop hcap (Later.forPass step body) (fun x s => (hbody x s).forPass) x _
      rw [run_forLoop, hloop huncapped]
    · intro _
      rw [run_forLoop_of_missing hm, run_forLoop_of_missing hm]
  | whileLoop tag condition body =>
    cases condition with
    | none => exact fun _ => rfl
    | some condition =>
      exact sameUnlessCapped_loop hcap (Later.runAll body)
        (Block.sameUnlessCapped_runAll hcap body) x s
  | ifElse tag condition ifPart elsePart =>
    cases condition with
    | none => exact fun _ => rfl
    | some condition =>
      intro huncapped
      rw [run_ifElse] at huncapped ⊢
      rw [run_ifElse]
      rcases hr : s.test tag.id condition x with ⟨_ | _, t⟩ <;> rw [hr] at huncapped
      · have helse := Block.sameUnlessCapped_runAll hcap elsePart x t huncapped
        simp only [Bool.false_eq_true, if_false, helse]
      · have hif := Block.sameUnlessCapped_runAll hcap ifPart x t huncapped
        simp only [if_true, hif]

theorem Block.sameUnlessCapped_runAll (hcap : setting.iterationCap ≤ cap) (bs : List Block)
    (x : Float) (s : RunState ω) :
    SameUnlessCapped (Block.runAll setting bs x s)
      (Block.runAll (setting.withCap cap) bs x s) := by
  intro huncapped
  cases bs with
  | nil => rfl
  | cons b bs =>
    have hb := Block.sameUnlessCapped_run hcap b x s
    rcases hr : b.run setting x s with ⟨y | y | why, t⟩
    · rw [runAll_cons_of_value hr] at huncapped ⊢
      -- The blocks that follow only add reports.
      have ht : ¬ t.Capped := fun h => huncapped (h.later (Later.runAll bs y t))
      rw [runAll_cons_of_value (hb.eq hr ht)]
      exact Block.sameUnlessCapped_runAll hcap bs y t huncapped
    · rw [runAll_cons_of_leave hr] at huncapped ⊢
      exact runAll_cons_of_leave (hb.eq hr huncapped)
    · rw [runAll_cons_of_interrupted hr] at huncapped ⊢
      exact runAll_cons_of_interrupted (hb.eq hr huncapped)

end

/-! ## Programs -/

namespace Program

/-- With a higher cap the blocks in slots run as before, unless the lower one is reported. -/
lemma runSlots_withCap (hcap : setting.iterationCap ≤ cap) (bs : List Block) (x : Float)
    (s : RunState ω) (hs : s.scopes = [])
    (huncapped : ¬ (runSlots setting bs x s).state.Capped) :
    runSlots (setting.withCap cap) bs x s = runSlots setting bs x s := by
  induction bs generalizing x s with
  | nil => rfl
  | cons b bs ih =>
    have hb := b.sameUnlessCapped_run hcap x s
    have hscopes : (b.run setting x s).2.scopes = s.scopes := b.scopes_run x s
    rw [runSlots] at huncapped ⊢
    rw [runSlots]
    rcases hr : b.run setting x s with ⟨y | y | why, t⟩ <;> rw [hr] at huncapped hscopes
    · have ht := hscopes.trans hs
      have hlater : Later setting t (runSlots setting bs y t).state := .runSlots bs y t ht
      rw [hb.eq hr fun h => huncapped (h.later hlater)]
      exact ih y t ht huncapped
    · have ht := hscopes.trans hs
      have hreport : Later setting t (t.report b.id .leaveOutsideLoop) := .report t _ _
      have hlater : Later setting (t.report b.id .leaveOutsideLoop)
          (runSlots setting bs x (t.report b.id .leaveOutsideLoop)).state := .runSlots bs x _ ht
      rw [hb.eq hr fun h => huncapped (h.later (hreport.trans hlater))]
      exact ih x _ ht huncapped
    · have hreport : Later setting t (t.report b.id (.interrupted why)) := .report t _ _
      rw [hb.eq hr fun h => huncapped (h.later hreport)]

/-- A run in which no loop is reported at the iteration cap is the same under every higher cap. -/
theorem run_withCap_of_uncapped (p : Program) (hcap : setting.iterationCap ≤ cap) (initial : Float)
    (channel : ω)
    (h : ∀ d ∈ (p.run setting initial channel).diagnostics, d.complaint.isCap = false) :
    p.run (setting.withCap cap) initial channel = p.run setting initial channel := by
  refine runSlots_withCap hcap p.blocks initial { channel } rfl ?_
  rintro ⟨d, hd, hcapped⟩
  have hnot := h d hd
  rw [hnot] at hcapped
  cases hcapped

end Program

/-- A loop that ends exactly at a cap of three passes, and reports something in each of them. -/
def threePasses : Program where
  slots := [
    some (.forLoop ⟨⟨1⟩, false, 0⟩ ⟨some ⟨"i", 0⟩, some (.ofText "i < 3"), some 1⟩
      [.action ⟨⟨2⟩, false, 0⟩ .print, .action ⟨⟨3⟩, false, 0⟩ (.statement (.ofText "x += j"))])]

/-- A loop of three passes is the same with a cap of three and with a higher one. -/
theorem threePasses_withCap :
    let setting := ({ iterationCap := 3 } : Limits).setting .still none none
    setting.iterationCap ≤ 1000000 ∧
      (∀ d ∈ (threePasses.run setting 0 {}).diagnostics, d.complaint.isCap = false) ∧
      (threePasses.run setting 0 {}).diagnostics.length = 3 ∧
      threePasses.run (setting.withCap 1000000) 0 {} = threePasses.run setting 0 {} := by
  intro setting
  have hcap : setting.iterationCap ≤ 1000000 := by decide
  have hnone : ∀ d ∈ (threePasses.run setting 0 {}).diagnostics, d.complaint.isCap = false := by
    decide +kernel
  have hthree : (threePasses.run setting 0 {}).diagnostics.length = 3 := by decide +kernel
  exact ⟨hcap, hnone, hthree, threePasses.run_withCap_of_uncapped hcap 0 {} hnone⟩

end BlockLang
