import BlockLang.Expr.Eval
import BlockLang.Proofs.Expr.Spans

/-!
# What evaluation fails at

Main statement: if an expression has no value, then the error is about a name in it that is not the
program variable.
-/

namespace BlockLang

variable {x : Float} {scopes : Scopes}

/-- If one thing after another fails, the first one does or the second one. -/
lemma eq_error_or_of_bind {ε α β : Type} {r : Except ε α} {f : α → Except ε β} {e : ε}
    (h : r >>= f = .error e) : r = .error e ∨ ∃ a, r = .ok a ∧ f a = .error e := by
  cases r with
  | error =>
    cases h
    exact .inl rfl
  | ok a => exact .inr ⟨a, rfl, h⟩

/-- The expressions hold the reference, and it is not to the program variable. -/
def UnboundName.In (r : UnboundName) (parts : List Expr) : Prop :=
  .name r.name r.span ∈ parts ∧ r.name ≠ programVariable

/-- A name among some expressions is among more of them. -/
lemma UnboundName.In.mono {r : UnboundName} {es fs : List Expr} (h : r.In es) (hsub : es ⊆ fs) :
    r.In fs :=
  ⟨hsub h.1, h.2⟩

mutual

/-- An expression fails at a name in it. -/
theorem Expr.in_parts_of_eval (e : Expr) {r : UnboundName} (h : e.eval x scopes = .error r) :
    r.In e.parts := by
  cases e with
  | number | boolean => cases h
  -- Only a name fails by itself; all else fails with one of its parts.
  | name n span =>
    rw [eval] at h
    split at h
    case isTrue => cases h
    case isFalse hn =>
      split at h
      case h_1 => cases h
      case h_2 =>
        cases h
        exact ⟨List.mem_cons_self, hn⟩
  | call f arguments span =>
    rw [eval] at h
    rcases eq_error_or_of_bind h with h | ⟨_, -, h⟩
    · exact (Expr.in_partsOf_of_evalList arguments h).mono (List.subset_cons_self _ _)
    · cases h
  | unary op operand =>
    rw [eval] at h
    rcases eq_error_or_of_bind h with h | ⟨_, -, h⟩
    · exact (operand.in_parts_of_eval h).mono (List.subset_cons_self _ _)
    · cases h
  | binary op left right =>
    rw [eval] at h
    rcases eq_error_or_of_bind h with h | ⟨a, -, h⟩
    · exact (left.in_parts_of_eval h).mono
        (List.subset_cons_of_subset _ (List.subset_append_left _ _))
    · -- The right side is not looked at if the left side settles the value.
      split at h
      case isTrue => cases h
      case isFalse =>
        rcases eq_error_or_of_bind h with h | ⟨_, -, h⟩
        · exact (right.in_parts_of_eval h).mono
            (List.subset_cons_of_subset _ (List.subset_append_right _ _))
        · cases h
  | choice condition yes no =>
    rw [eval] at h
    rcases eq_error_or_of_bind h with h | ⟨a, -, h⟩
    · exact (condition.in_parts_of_eval h).mono
        (List.subset_cons_of_subset _ (List.subset_append_left _ _))
    · split at h
      · exact (yes.in_parts_of_eval h).mono (List.subset_cons_of_subset _
          (List.subset_append_of_subset_right _ (List.subset_append_left _ _)))
      · exact (no.in_parts_of_eval h).mono (List.subset_cons_of_subset _
          (List.subset_append_of_subset_right _ (List.subset_append_right _ _)))

theorem Expr.in_partsOf_of_evalList (es : List Expr) {r : UnboundName}
    (h : Expr.evalList x scopes es = .error r) : r.In (Expr.partsOf es) := by
  cases es with
  | nil => cases h
  | cons e es =>
    rw [evalList] at h
    rcases eq_error_or_of_bind h with h | ⟨_, -, h⟩
    · exact (e.in_parts_of_eval h).mono (List.subset_append_left _ _)
    · rcases eq_error_or_of_bind h with h | ⟨_, -, h⟩
      · exact (Expr.in_partsOf_of_evalList es h).mono (List.subset_append_right _ _)
      · cases h

end

/-- An instruction fails at a reference in its expression. -/
lemma Instruction.in_parts_of_exec (i : Instruction) {r : UnboundName}
    (h : i.exec scopes x = .error r) : r.In i.value.parts := by
  cases i with
  | assign target op value span =>
    rcases eq_error_or_of_bind h with h | ⟨_, -, h⟩
    · exact value.in_parts_of_eval h
    · cases h
  | bare value span =>
    rcases eq_error_or_of_bind h with h | ⟨_, -, h⟩
    · exact value.in_parts_of_eval h
    · cases h

/-- Instructions fail at a reference in one of their expressions. -/
lemma exists_in_parts_of_execAll {is : List Instruction} {r : UnboundName}
    (h : execAll scopes is x = .error r) : ∃ i ∈ is, r.In i.value.parts := by
  induction is generalizing x with
  | nil => cases h
  | cons i is ih =>
    rw [execAll, List.foldlM_cons] at h
    rcases eq_error_or_of_bind h with h | ⟨y, -, h⟩
    · exact ⟨i, List.mem_cons_self, i.in_parts_of_exec h⟩
    · obtain ⟨j, hj, hr⟩ := ih h
      exact ⟨j, List.mem_cons_of_mem i hj, hr⟩

end BlockLang
