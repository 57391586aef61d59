import BlockLang.Proofs.Run.Reports

/-!
# Interrupted runs

An interrupted run is compared with the run that nothing interrupts. Up to the interruption both
are the same; then the first one unwinds and the second one goes on. What was written and reported
stays, and the program variable goes back to where it was before the block in the slot.
-/

namespace BlockLang

variable {ω : Type} {setting : Setting ω}

/-- The setting in which nothing interrupts a run. -/
def Setting.uninterrupted (setting : Setting ω) : Setting ω :=
  { setting with interruption := fun _ _ => none }

/-- The channel after pieces of text were offered to it one after the other. -/
def Setting.offer (setting : Setting ω) (channel : ω) (pieces : List String) : ω :=
  pieces.foldl (fun c piece => (setting.write c piece).2) channel

/-! ## States a run can go on to -/

/-- More was offered to the output and more was reported in `t` than in `s`. -/
structure Later (setting : Setting ω) (s t : RunState ω) : Prop where
  diagnostics : s.diagnostics.toList <+: t.diagnostics.toList
  channel : ∃ pieces, t.channel = setting.offer s.channel pieces

namespace Later

variable {s t u : RunState ω}

/-- A state with the same reports and the same channel is a later one. -/
lemma of_eq (hd : t.diagnostics = s.diagnostics) (hc : t.channel = s.channel) :
    Later setting s t :=
  ⟨hd ▸ List.prefix_refl _, ⟨[], hc⟩⟩

lemma refl (s : RunState ω) : Later setting s s := of_eq rfl rfl

lemma trans (hst : Later setting s t) (htu : Later setting t u) : Later setting s u := by
  obtain ⟨pieces, hp⟩ := hst.channel
  obtain ⟨more, hm⟩ := htu.channel
  refine ⟨hst.diagnostics.trans htu.diagnostics, ⟨pieces ++ more, ?_⟩⟩
  rw [hm, hp, Setting.offer, Setting.offer, Setting.offer, List.foldl_append]

/-- A report leads to a later state. -/
lemma report (s : RunState ω) (id : BlockId) (c : Complaint) :
    Later setting s (s.report id c) := by
  refine ⟨?_, ⟨[], rfl⟩⟩
  rw [RunState.diagnostics_report, Array.toList_push]
  exact List.prefix_append _ _

/-- What can be offered to the output does not depend on interruptions. -/
lemma of_uninterrupted (h : Later setting.uninterrupted s t) : Later setting s t :=
  ⟨h.diagnostics, h.channel⟩

/-- Whatever blocks a run goes through, it only writes and reports more. -/
lemma kept (sites : List Site) : Kept setting sites (Later setting) where
  refl := refl
  trans := trans
  check _ := of_eq rfl rfl
  rescope _ _ := of_eq rfl rfl
  write _ piece := ⟨List.prefix_refl _, ⟨[piece], rfl⟩⟩
  report site _ s _ _ c _ _ := report s site.block.id c

/-- So does a look at a condition. -/
lemma test (id : BlockId) (code : ConditionCode) (x : Float) (s : RunState ω) :
    Later setting s (s.test id code x).2 := by
  cases he : code.eval x s.scopes with
  | ok v => rw [RunState.test_of_ok s id he]; exact refl s
  | error e => rw [RunState.test_of_error s id he]; exact report s id _

/-- So does a block. -/
lemma run (b : Block) (x : Float) (s : RunState ω) : Later setting s (b.run setting x s).2 :=
  b.kept_run (kept (b.sites _ false)) x s rfl

lemma runAll (bs : List Block) (x : Float) (s : RunState ω) :
    Later setting s (Block.runAll setting bs x s).2 :=
  Block.kept_runAll bs (kept (Block.sitesOf _ false bs)) x s rfl

/-- So do the blocks in slots. -/
lemma runSlots (bs : List Block) (x : Float) (s : RunState ω) (hs : s.scopes = []) :
    Later setting s (Program.runSlots setting bs x s).state :=
  Program.kept_runSlots (kept _) (fun b _ _ t => report t b.id _)
    (fun b _ _ _ _ _ t => report t b.id _) x s hs

end Later

/-! ## Runs that nothing interrupts -/

/-- Without interruptions a loop is only interrupted if its body is. -/
lemma repeatWhile_ne_interrupted {test : Float → RunState ω → Bool × RunState ω}
    {body : Float → RunState ω → Ending × RunState ω} {atCap : RunState ω → RunState ω}
    (hbody : ∀ x s why, (body x s).1 ≠ .interrupted why) (passes : Nat) (x : Float)
    (s : RunState ω) (why : Interruption) :
    (repeatWhile setting.uninterrupted test body atCap passes x s).1 ≠ .interrupted why := by
  fun_induction repeatWhile setting.uninterrupted test body atCap passes x s with
  | case1 _ _ _ _ h => cases h
  | case4 _ _ _ _ _ _ _ _ _ ih => exact ih
  | case6 x s _ t _ _ why' _ hb =>
    have h := hbody x t why'
    rw [hb] at h
    exact absurd rfl h
  | _ => simp

/-- An interruption stays when an ending is taken back to a value. -/
lemma Ending.eq_of_backTo_eq_interrupted {ending : Ending} {why : Interruption} {x : Float}
    (h : ending.backTo x = .interrupted why) : ending = .interrupted why := by
  cases ending with
  | interrupted why' => exact h
  | value y => cases h
  | leave y => cases h

mutual

/-- Where nothing interrupts, no block is interrupted. -/
theorem Block.run_ne_interrupted (b : Block) (x : Float) (s : RunState ω) (why : Interruption) :
    (b.run setting.uninterrupted x s).1 ≠ .interrupted why := by
  cases b with
  | action tag a =>
    cases a with
    | statement code => simp only [run, Action.run]; split <;> simp
    | addCounter name => simp only [run, Action.run]; split <;> simp
    | print => simp [run, Action.run]
    | leave => simp [run, Action.run]
  | forLoop tag headers body =>
    rcases forLoop_complete_or_missing tag headers body with ⟨init, condition, step, rfl⟩ | hm
    · rw [run_forLoop]
      refine repeatWhile_ne_interrupted ?_ _ _ _ _
      intro x s why
      have h := Block.runAll_ne_interrupted body x s why
      simp only [forPass]
      rcases hr : runAll setting.uninterrupted body x s with ⟨_ | _ | _, t⟩
      · simp
      · simp
      · rw [hr] at h
        exact h
    · rw [run_forLoop_of_missing hm]
      simp
  | whileLoop tag condition body =>
    cases condition with
    | none => simp [run]
    | some condition =>
      exact repeatWhile_ne_interrupted (Block.runAll_ne_interrupted body) _ _ _ _
  | ifElse tag condition ifPart elsePart =>
    cases condition with
    | none => simp [run]
    | some condition =>
      rw [run_ifElse]
      intro h
      have h := Ending.eq_of_backTo_eq_interrupted h
      cases hc : (s.test tag.id condition x).1
      · rw [hc] at h
        exact Block.runAll_ne_interrupted elsePart _ _ _ h
      · rw [hc] at h
        exact Block.runAll_ne_interrupted ifPart _ _ _ h

theorem Block.runAll_ne_interrupted (bs : List Block) (x : Float) (s : RunState ω)
    (why : Interruption) : (Block.runAll setting.uninterrupted bs x s).1 ≠ .interrupted why := by
  cases bs with
  | nil => simp [runAll]
  | cons b bs =>
    have hb := Block.run_ne_interrupted b x s
    rcases hr : b.run setting.uninterrupted x s with ⟨_ | _ | _, t⟩
    · rw [runAll_cons_of_value hr]
      exact Block.runAll_ne_interrupted bs _ _ _
    · rw [runAll_cons_of_leave hr]
      simp
    · rw [hr] at hb
      exact absurd rfl (hb _)

end

/-! ## The two runs side by side -/

/-- How a run can stand to the run that nothing interrupts: it is the same, or it was interrupted
in a state that the other one went on from. -/
inductive Cut (setting : Setting ω) (r free : Ending × RunState ω) : Prop
  | same : r = free → Cut setting r free
  | short (why) : r.1 = .interrupted why → Later setting r.2 free.2 → Cut setting r free

section Loops

variable {test : Float → RunState ω → Bool × RunState ω}
  {body free : Float → RunState ω → Ending × RunState ω} {atCap : RunState ω → RunState ω}

/-- Unless it stops here, a body that is cut is the same as the uninterrupted one. -/
lemma Cut.eq_of_ne_interrupted {r free : Ending × RunState ω} (h : Cut setting r free)
    (hr : ∀ why, r.1 ≠ .interrupted why) : free = r := by
  rcases h with heq | ⟨why, hwhy, _⟩
  · exact heq.symm
  · exact absurd hwhy (hr why)

/-- Bodies that are cut make loops that are cut. -/
lemma cut_repeatWhile (htest : ∀ x s, Later setting s (test x s).2)
    (hfree : ∀ x s, Later setting s (free x s).2) (hcap : ∀ s, Later setting s (atCap s))
    (hcut : ∀ x s, Cut setting (body x s) (free x s)) (passes : Nat) (x : Float)
    (s : RunState ω) :
    Cut setting (repeatWhile setting test body atCap passes x s)
      (repeatWhile setting.uninterrupted test free atCap passes x s) := by
  have hgo : ∀ passes x s, Later setting s
      (repeatWhile setting.uninterrupted test free atCap passes x s).2 :=
    repeatWhile_rel Later.trans (fun _ => .of_eq rfl rfl) htest hfree hcap
  fun_induction repeatWhile setting test body atCap passes x s with
  | case1 passes x s why =>
    have h := hgo passes x s
    exact .short why rfl ⟨h.diagnostics, h.channel⟩
  | case2 _ _ _ _ _ ht =>
    rw [repeatWhile_of_false rfl ht]
    exact .same rfl
  | case3 _ _ _ _ ht =>
    rw [repeatWhile_zero_of_true rfl ht]
    exact .same rfl
  | case4 x _ _ t ht passes y u hb ih =>
    have hf : free x t = (.value y, u) := (hb ▸ hcut x t).eq_of_ne_interrupted (by simp)
    rw [repeatWhile_succ_of_value rfl ht hf]
    exact ih
  | case5 x _ _ t ht passes y u hb =>
    have hf : free x t = (.leave y, u) := (hb ▸ hcut x t).eq_of_ne_interrupted (by simp)
    rw [repeatWhile_succ_of_leave rfl ht hf]
    exact .same rfl
  | case6 x _ _ t ht passes why u hb =>
    rcases hf : free x t with ⟨e, v⟩
    have hlater : Later setting u v := by
      rcases hcut x t with heq | ⟨_, _, hlater⟩
      · rw [hb, hf] at heq
        cases heq
        exact .refl u
      · rwa [hb, hf] at hlater
    -- The body stops here; without interruptions the loop goes on from where that leads.
    refine .short why rfl ?_
    cases e with
    | value y =>
      rw [repeatWhile_succ_of_value rfl ht hf]
      exact hlater.trans (hgo passes y v)
    | leave y =>
      rw [repeatWhile_succ_of_leave rfl ht hf]
      exact hlater
    | interrupted why =>
      rw [repeatWhile_succ_of_stopped rfl ht hf]
      exact hlater

end Loops

/-- A pass of a loop is cut where its body is. -/
lemma Cut.forPass {step : Float} {body : List Block} {x : Float} {s : RunState ω}
    (h : Cut setting (Block.runAll setting body x s)
      (Block.runAll setting.uninterrupted body x s)) :
    Cut setting (forPass setting step body x s) (forPass setting.uninterrupted step body x s) := by
  simp only [BlockLang.forPass]
  rcases h with heq | ⟨why, hr, hlater⟩
  · rw [heq]
    exact .same rfl
  · rcases hb : Block.runAll setting body x s with ⟨e, u⟩
    rw [hb] at hr hlater
    simp only at hr
    subst hr
    refine .short why rfl ?_
    rcases hf : Block.runAll setting.uninterrupted body x s with ⟨_ | _ | _, v⟩ <;>
    · rw [hf] at hlater
      exact ⟨hlater.diagnostics, hlater.channel⟩

/-- A pass of a for loop only writes and reports more. -/
lemma Later.forPass (step : Float) (body : List Block) (x : Float) (s : RunState ω) :
    Later setting s (forPass setting step body x s).2 := by
  have h : Later setting s (Block.runAll setting body x s).2 := runAll body x s
  simp only [BlockLang.forPass]
  rcases hr : Block.runAll setting body x s with ⟨_ | _ | _, t⟩ <;>
  · rw [hr] at h
    exact ⟨h.diagnostics, h.channel⟩

/-- A block without others inside does not ask whether it has to stop. -/
lemma Action.run_uninterrupted (id : BlockId) (x : Float) (s : RunState ω) (a : Action) :
    a.run setting.uninterrupted id x s = a.run setting id x s := by
  cases a <;> rfl

mutual

/-- A block runs as without interruption, or is cut short. -/
theorem Block.cut_run (b : Block) (x : Float) (s : RunState ω) :
    Cut setting (b.run setting x s) (b.run setting.uninterrupted x s) := by
  cases b with
  | action tag a => exact .same (a.run_uninterrupted tag.id x s).symm
  -- A counter is taken back at the end, so only what was written and reported is compared then.
  | forLoop tag headers body =>
    rcases forLoop_complete_or_missing tag headers body with ⟨init, condition, step, rfl⟩ | hm
    · rw [run_forLoop, run_forLoop]
      have h : Cut setting
          (loop setting .forLoop tag.id condition (forPass setting step body) x (s.pushScope init))
          (loop setting.uninterrupted .forLoop tag.id condition
            (forPass setting.uninterrupted step body) x (s.pushScope init)) :=
        cut_repeatWhile (Later.test tag.id condition)
          (fun x s => (Later.forPass step body x s).of_uninterrupted)
          (fun s => .report s tag.id _) (fun x s => .forPass (Block.cut_runAll body x s)) _ _ _
      rcases h with heq | ⟨why, hr, hlater⟩
      · rw [heq]
        exact .same rfl
      · exact .short why hr ⟨hlater.diagnostics, hlater.channel⟩
    · rw [run_forLoop_of_missing hm, run_forLoop_of_missing hm]
      exact .same rfl
  | whileLoop tag condition body =>
    cases condition with
    | none => exact .same rfl
    | some condition =>
      exact cut_repeatWhile (Later.test tag.id condition)
        (fun x s => (Later.runAll body x s).of_uninterrupted)
        (fun s => .report s tag.id _) (Block.cut_runAll body) _ x s
  | ifElse tag condition ifPart elsePart =>
    cases condition with
    | none => exact .same rfl
    | some condition =>
      rw [run_ifElse, run_ifElse]
      rcases s.test tag.id condition x with ⟨holds, t⟩
      simp only
      have h : Cut setting (runAll setting (if holds then ifPart else elsePart) x t)
          (runAll setting.uninterrupted (if holds then ifPart else elsePart) x t) := by
        cases holds
        · exact Block.cut_runAll elsePart x t
        · exact Block.cut_runAll ifPart x t
      rcases h with heq | ⟨why, hr, hlater⟩
      · rw [heq]
        exact .same rfl
      · refine .short why ?_ hlater
        rw [hr]
        rfl

theorem Block.cut_runAll (bs : List Block) (x : Float) (s : RunState ω) :
    Cut setting (Block.runAll setting bs x s) (Block.runAll setting.uninterrupted bs x s) := by
  cases bs with
  | nil => exact .same rfl
  | cons b bs =>
    have hgo : ∀ y t, Later setting t (runAll setting.uninterrupted bs y t).2 :=
      fun y t => (Later.runAll bs y t).of_uninterrupted
    rcases hf : b.run setting.uninterrupted x s with ⟨e, u⟩
    -- The first block runs to its end, or it is the one that is cut short.
    rcases Block.cut_run b x s with heq | ⟨why, hr, hlater⟩
    · rw [hf] at heq
      cases e with
      | value y =>
        rw [runAll_cons_of_value heq, runAll_cons_of_value hf]
        exact Block.cut_runAll bs y u
      | leave y =>
        rw [runAll_cons_of_leave heq, runAll_cons_of_leave hf]
        exact .same rfl
      | interrupted why =>
        rw [runAll_cons_of_interrupted heq, runAll_cons_of_interrupted hf]
        exact .same rfl
    · rw [hf] at hlater
      rw [runAll_cons_of_stopped (by simp [hr])]
      refine .short why hr ?_
      cases e with
      | value y => rw [runAll_cons_of_value hf]; exact hlater.trans (hgo y u)
      | leave y => rw [runAll_cons_of_leave hf]; exact hlater
      | interrupted why => rw [runAll_cons_of_interrupted hf]; exact hlater

end

end BlockLang
