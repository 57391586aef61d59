import BlockLang.Expr.Eval
import Mathlib.Tactic.Lemma

/-!
# The names in an expression

An expression can only fail to have a value through a name in it: if each one is the program
variable or a counter, evaluation succeeds.
-/

namespace BlockLang

mutual

/-- The names that an expression refers to, in the order of its text. -/
def Expr.names : Expr → List String
  | .number _ | .boolean _ => []
  | .name n _ => [n]
  | .call _ arguments _ => Expr.namesOf arguments
  | .unary _ operand => operand.names
  | .binary _ left right => left.names ++ right.names
  | .choice condition yes no => condition.names ++ (yes.names ++ no.names)

def Expr.namesOf : List Expr → List String
  | [] => []
  | e :: es => e.names ++ Expr.namesOf es

end

/-- The names in the value of an instruction. -/
def Instruction.names : Instruction → List String
  | assign _ _ value _ | bare value _ => value.names

/-- A name means something if it is the program variable or a counter. -/
def Scopes.Binds (scopes : Scopes) (n : String) : Prop :=
  n = programVariable ∨ ∃ a, scopes.get? n = some a

/-- A counter that is there has a value. -/
lemma Scopes.exists_get?_of_mem {scopes : Scopes} {n : String}
    (h : n ∈ scopes.map Scope.name) : ∃ a, scopes.get? n = some a := by
  induction scopes with
  | nil => simp at h
  | cons scope outer ih =>
    by_cases hn : scope.name = n
    · exact ⟨scope.value, by simp [get?, hn]⟩
    · obtain ⟨a, ha⟩ := ih (by simpa [Ne.symm hn] using h)
      exact ⟨a, by simpa [get?, hn] using ha⟩

/-! ## Evaluation -/

section Eval

variable {scopes : Scopes}

mutual

/-- An expression has a value where all its names mean something. -/
theorem Expr.exists_eval_of_binds (e : Expr) (x : Float)
    (h : ∀ n ∈ e.names, scopes.Binds n) : ∃ v, e.eval x scopes = .ok v := by
  cases e with
  | number a => exact ⟨_, rfl⟩
  | boolean b => exact ⟨_, rfl⟩
  | name n span =>
    rcases h n (by simp [Expr.names]) with hn | ⟨a, ha⟩
    · exact ⟨.number x, by simp only [Expr.eval, if_pos hn]⟩
    · -- A counter that is called like the program variable is not asked for.
      by_cases hn : n = programVariable
      · exact ⟨.number x, by simp only [Expr.eval, if_pos hn]⟩
      · exact ⟨.number a, by simp only [Expr.eval, if_neg hn, ha]⟩
  | call f arguments span =>
    simp only [Expr.names] at h
    obtain ⟨vs, hvs⟩ := Expr.exists_evalList_of_binds arguments x h
    exact ⟨.number (f.apply vs), by simp only [Expr.eval, hvs]; rfl⟩
  | unary op operand =>
    simp only [Expr.names] at h
    obtain ⟨v, hv⟩ := Expr.exists_eval_of_binds operand x h
    exact ⟨op.apply v, by simp only [Expr.eval, hv]; rfl⟩
  | binary op left right =>
    simp only [Expr.names, List.mem_append] at h
    obtain ⟨a, ha⟩ := Expr.exists_eval_of_binds left x fun n hn => h n (.inl hn)
    obtain ⟨b, hb⟩ := Expr.exists_eval_of_binds right x fun n hn => h n (.inr hn)
    by_cases hd : op.decidedBy a
    · exact ⟨a, by simp only [Expr.eval, ha, hb, bind, Except.bind, if_pos hd]; rfl⟩
    · exact ⟨op.apply a b, by simp only [Expr.eval, ha, hb, bind, Except.bind, if_neg hd]; rfl⟩
  | choice condition yes no =>
    simp only [Expr.names, List.mem_append] at h
    obtain ⟨v, hv⟩ := Expr.exists_eval_of_binds condition x fun n hn => h n (.inl hn)
    obtain ⟨a, ha⟩ := Expr.exists_eval_of_binds yes x fun n hn => h n (.inr (.inl hn))
    obtain ⟨b, hb⟩ := Expr.exists_eval_of_binds no x fun n hn => h n (.inr (.inr hn))
    by_cases ht : v.isTruthy
    · exact ⟨a, by simp only [Expr.eval, hv, ha, bind, Except.bind, if_pos ht]⟩
    · exact ⟨b, by simp only [Expr.eval, hv, hb, bind, Except.bind, if_neg ht]⟩

theorem Expr.exists_evalList_of_binds (es : List Expr) (x : Float)
    (h : ∀ n ∈ Expr.namesOf es, scopes.Binds n) : ∃ vs, Expr.evalList x scopes es = .ok vs := by
  cases es with
  | nil => exact ⟨_, rfl⟩
  | cons e es =>
    simp only [Expr.namesOf, List.mem_append] at h
    obtain ⟨v, hv⟩ := Expr.exists_eval_of_binds e x fun n hn => h n (.inl hn)
    obtain ⟨vs, hvs⟩ := Expr.exists_evalList_of_binds es x fun n hn => h n (.inr hn)
    exact ⟨v.toNumber :: vs, by simp only [Expr.evalList, hv, hvs]; rfl⟩

end

/-- An instruction is carried out if all its names mean something. -/
lemma Instruction.exists_exec_of_binds (i : Instruction) (x : Float)
    (h : ∀ n ∈ i.names, scopes.Binds n) : ∃ y, i.exec scopes x = .ok y := by
  cases i with
  | assign target op value span =>
    obtain ⟨v, hv⟩ := value.exists_eval_of_binds x h
    exact ⟨op.apply x v.toNumber, by simp only [exec, hv]; rfl⟩
  | bare value span =>
    obtain ⟨v, hv⟩ := value.exists_eval_of_binds x h
    exact ⟨x, by simp only [exec, hv]; rfl⟩

/-- Instructions are carried out if all their names mean something. -/
lemma exists_execAll_of_binds (instructions : List Instruction) (x : Float)
    (h : ∀ i ∈ instructions, ∀ n ∈ i.names, scopes.Binds n) :
    ∃ y, execAll scopes instructions x = .ok y := by
  induction instructions generalizing x with
  | nil => exact ⟨x, rfl⟩
  | cons i rest ih =>
    obtain ⟨y, hy⟩ := i.exists_exec_of_binds x (h i List.mem_cons_self)
    obtain ⟨z, hz⟩ := ih y fun j hj => h j (List.mem_cons_of_mem i hj)
    refine ⟨z, ?_⟩
    rw [← hz]
    simp only [execAll, List.foldlM_cons, hy]
    rfl

end Eval

end BlockLang
