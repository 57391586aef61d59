import BlockLang.Proofs.Run.Steps

/-!
# On the way out of a loop

Only a break that no loop inside the block catches can put a block on the way out of a loop, and
then the program variable has the value that the block began with.
-/

namespace BlockLang

variable {ω : Type} {setting : Setting ω}

mutual

/-- Whether there is a break in the block, or is the block itself, that no loop inside it
catches. -/
def Block.canLeave : Block → Bool
  | .action _ .leave => true
  | .ifElse _ _ ifPart elsePart => Block.anyCanLeave ifPart || Block.anyCanLeave elsePart
  | .action .. | .forLoop .. | .whileLoop .. => false

def Block.anyCanLeave : List Block → Bool
  | [] => false
  | b :: bs => b.canLeave || Block.anyCanLeave bs

end

/-- Of the blocks without others inside, only a break puts the run on the way out of a loop. -/
lemma Action.leave_run {id : BlockId} {x y : Float} {s : RunState ω} {a : Action}
    (h : (a.run setting id x s).1 = .leave y) : a = .leave ∧ y = x := by
  cases a with
  | leave =>
    simp only [run, Ending.leave.injEq] at h
    exact ⟨rfl, h.symm⟩
  | statement code => simp only [run] at h; split at h <;> cases h
  | print => simp only [run] at h; cases h
  | addCounter name => simp only [run] at h; split at h <;> cases h

/-- Where an ending is taken back to a value, a block on the way out was on its way before. -/
lemma Ending.eq_of_backTo_eq_leave {x y : Float} {ending : Ending}
    (h : ending.backTo x = .leave y) : (∃ z, ending = .leave z) ∧ y = x := by
  cases ending with
  | leave z =>
    simp only [backTo, leave.injEq] at h
    exact ⟨⟨z, rfl⟩, h.symm⟩
  | value z => cases h
  | interrupted why => cases h

mutual

/-- A block on the way out has a break that no loop inside it catches, and ends with the value that
it began with. -/
theorem Block.leave_run (b : Block) {x y : Float} {s : RunState ω}
    (h : (b.run setting x s).1 = .leave y) : b.canLeave = true ∧ y = x := by
  cases b with
  | action tag a =>
    obtain ⟨rfl, hy⟩ := Action.leave_run h
    exact ⟨rfl, hy⟩
  | forLoop tag headers body =>
    -- Loops catch what leaves their bodies.
    rcases forLoop_complete_or_missing tag headers body with ⟨init, condition, step, rfl⟩ | hm
    · rw [run_forLoop] at h
      exact absurd h (repeatWhile_ne_leave _ _ _ _)
    · rw [run_forLoop_of_missing hm] at h
      cases h
  | whileLoop tag condition body =>
    cases condition with
    | none => cases h
    | some condition => exact absurd h (repeatWhile_ne_leave _ _ _ _)
  | ifElse tag condition ifPart elsePart =>
    cases condition with
    | none => cases h
    | some condition =>
      rw [run_ifElse] at h
      rcases hr : s.test tag.id condition x with ⟨_ | _, t⟩
      · rw [hr] at h
        obtain ⟨⟨z, hz⟩, hy⟩ := Ending.eq_of_backTo_eq_leave h
        have hc := Block.anyCanLeave_of_runAll elsePart hz
        exact ⟨by simp only [canLeave, hc, Bool.or_true], hy⟩
      · rw [hr] at h
        obtain ⟨⟨z, hz⟩, hy⟩ := Ending.eq_of_backTo_eq_leave h
        have hc := Block.anyCanLeave_of_runAll ifPart hz
        exact ⟨by simp only [canLeave, hc, Bool.true_or], hy⟩

/-- Blocks in a row are on the way out only if one of them has such a break. -/
theorem Block.anyCanLeave_of_runAll (bs : List Block) {x y : Float} {s : RunState ω}
    (h : (Block.runAll setting bs x s).1 = .leave y) : Block.anyCanLeave bs = true := by
  cases bs with
  | nil => cases h
  | cons b bs =>
    rw [anyCanLeave]
    rcases hr : b.run setting x s with ⟨ending, t⟩
    cases ending with
    | value z =>
      rw [runAll_cons_of_value hr] at h
      rw [Block.anyCanLeave_of_runAll bs h, Bool.or_true]
    | leave z =>
      have hb : (b.run setting x s).1 = .leave z := by rw [hr]
      rw [(Block.leave_run b hb).1, Bool.true_or]
    | interrupted why =>
      rw [runAll_cons_of_interrupted hr] at h
      cases h

end

end BlockLang
