import Mathlib
import BlockLang.Proofs.Expr.Names
import BlockLang.Proofs.Expr.References

/-!
# The references that evaluation comes to

Evaluation takes the parts of an expression from left to right and passes over the right side of
`&&` and `||` and the branch of a choice that it does not need. Main statement: it fails exactly at
the first name on its way that means nothing, and nothing but the program variable and the counters
of the names in the expression has a part in what comes out.
-/

namespace BlockLang

/-- Where a name stands. -/
abbrev Reference := String × Span

namespace Scopes

/-- A value for every name: that of the program variable, of the innermost counter with the name,
or, where there is none, one of the values `others`. -/
def lookup (scopes : Scopes) (x : Float) (others : String → Float) (n : String) : Float :=
  if n = programVariable then x else (scopes.get? n).getD (others n)

instance decidableBinds (scopes : Scopes) (n : String) : Decidable (scopes.Binds n) :=
  decidable_of_iff (n = programVariable ∨ (scopes.get? n).isSome)
    (or_congr_right Option.isSome_iff_exists)

/-- The first of the references that means nothing. -/
def firstUnbound? (scopes : Scopes) (references : List Reference) : Option Reference :=
  references.find? fun t => ¬ scopes.Binds t.1

end Scopes

namespace Expr

mutual

/-- The value of an expression in which every name has a value. A falsy left side is the value of
`&&` and a truthy one that of `||`; otherwise the right side is. -/
def valueBy (value : String → Float) : Expr → Value
  | number a => .number a
  | boolean b => .boolean b
  | name n _ => .number (value n)
  | call f arguments _ => .number (f.apply (valuesBy value arguments))
  | unary op operand => op.apply (operand.valueBy value)
  | binary op left right => match op with
    | .and => if (left.valueBy value).isFalsy then left.valueBy value else right.valueBy value
    | .or => if (left.valueBy value).isTruthy then left.valueBy value else right.valueBy value
    | op => op.apply (left.valueBy value) (right.valueBy value)
  | choice condition yes no =>
    if (condition.valueBy value).isTruthy then yes.valueBy value else no.valueBy value

def valuesBy (value : String → Float) : List Expr → List Float
  | [] => []
  | e :: es => (e.valueBy value).toNumber :: valuesBy value es

end

mutual

/-- The references that are needed for the value of an expression, in the order of its text. Those
on the right side of `&&` are passed over if the left side is falsy, and those on the right side of
`||` if the left side is truthy. -/
def visits (value : String → Float) : Expr → List Reference
  | number _ | boolean _ => []
  | name n span => [(n, span)]
  | call _ arguments _ => visitsOf value arguments
  | unary _ operand => operand.visits value
  | binary op left right => left.visits value ++ match op with
    | .and => if (left.valueBy value).isFalsy then [] else right.visits value
    | .or => if (left.valueBy value).isTruthy then [] else right.visits value
    | _ => right.visits value
  | choice condition yes no =>
    condition.visits value ++
      if (condition.valueBy value).isTruthy then yes.visits value else no.visits value

def visitsOf (value : String → Float) : List Expr → List Reference
  | [] => []
  | e :: es => e.visits value ++ visitsOf value es

end

end Expr

/-! ## Failures -/

section

variable {α β : Type} {x : Float} {scopes : Scopes} {others : String → Float}

/-- The value `a`, if the references to it all mean something. -/
def Scopes.settle (scopes : Scopes) (references : List Reference) (a : α) :
    Except UnboundName α :=
  match scopes.firstUnbound? references with
  | some (n, span) => .error ⟨n, span⟩
  | none => .ok a

/-- What is settled one after the other is settled by the references in a row. -/
lemma Scopes.settle_bind {us vs : List Reference} {a : α} {b : β} {f : α → Except UnboundName β}
    (hf : f a = scopes.settle vs b) : scopes.settle us a >>= f = scopes.settle (us ++ vs) b := by
  have hsplit : scopes.firstUnbound? (us ++ vs) =
      (scopes.firstUnbound? us).or (scopes.firstUnbound? vs) := List.find?_append
  rw [settle, settle, hsplit]
  cases scopes.firstUnbound? us with
  | some t => rfl
  | none =>
    show f a = _
    rw [hf, settle, Option.none_or]

/-- What is made of a settled value is settled by the same references. -/
lemma Scopes.settle_bind_pure {us : List Reference} {a : α} {f : α → β} :
    (do return f (← scopes.settle us a)) = scopes.settle us (f a) := by
  rw [settle, settle]
  cases scopes.firstUnbound? us <;> rfl

/-- A name is settled by the reference to it. -/
lemma Scopes.settle_name (n : String) (span : Span) :
    (Expr.name n span).eval x scopes =
      scopes.settle [(n, span)] (.number (scopes.lookup x others n)) := by
  rw [Expr.eval, settle, firstUnbound?, lookup]
  by_cases hn : n = programVariable
  · have hbinds : scopes.Binds n := .inl hn
    simp [hn, Scopes.Binds]
  · cases ha : scopes.get? n with
    | none =>
      have hbinds : ¬ scopes.Binds n := by simp [Scopes.Binds, hn, ha]
      simp [hn, hbinds]
    | some a =>
      have hbinds : scopes.Binds n := .inr ⟨a, ha⟩
      simp [hn, hbinds]

mutual

/-- Evaluation gives the value that the names have among them, unless it comes to a name that means
nothing. What such a name would stand for does not matter. -/
theorem Expr.eval_eq_settle (e : Expr) :
    e.eval x scopes = scopes.settle (e.visits (scopes.lookup x others))
      (e.valueBy (scopes.lookup x others)) := by
  cases e with
  | number | boolean => rfl
  | name n span => exact Scopes.settle_name n span
  | call f arguments span =>
    rw [eval, visits, valueBy, Expr.evalList_eq_settle arguments]
    exact Scopes.settle_bind_pure
  | unary op operand =>
    rw [eval, visits, valueBy, operand.eval_eq_settle]
    exact Scopes.settle_bind_pure
  | binary op left right =>
    cases op with
    | and | or =>
      rw [eval, visits, valueBy, left.eval_eq_settle, right.eval_eq_settle]
      refine Scopes.settle_bind ?_
      -- The right side is looked at if the left side does not decide the value.
      rw [BinaryOp.decidedBy]
      split
      · rfl
      · exact Scopes.settle_bind_pure
    | _ =>
      rw [eval, visits, valueBy, left.eval_eq_settle, right.eval_eq_settle]
      · exact Scopes.settle_bind Scopes.settle_bind_pure
      all_goals simp
  | choice condition yes no =>
    rw [eval, visits, valueBy, condition.eval_eq_settle]
    refine Scopes.settle_bind ?_
    split
    · exact yes.eval_eq_settle
    · exact no.eval_eq_settle

theorem Expr.evalList_eq_settle (es : List Expr) :
    Expr.evalList x scopes es = scopes.settle (Expr.visitsOf (scopes.lookup x others) es)
      (Expr.valuesBy (scopes.lookup x others) es) := by
  cases es with
  | nil => rfl
  | cons e es =>
    rw [evalList, visitsOf, valuesBy, e.eval_eq_settle]
    refine Scopes.settle_bind ?_
    rw [Expr.evalList_eq_settle es]
    exact Scopes.settle_bind_pure

end

/-- What is settled fails at the first reference that means nothing. -/
lemma Scopes.settle_eq_error_iff {references : List Reference} {a : α} {r : UnboundName} :
    scopes.settle references a = .error r ↔
      scopes.firstUnbound? references = some (r.name, r.span) := by
  rw [settle]
  cases scopes.firstUnbound? references with
  | none => simp
  | some t =>
    obtain ⟨n, span⟩ := t
    obtain ⟨n', span'⟩ := r
    simp

end

/-! ## Independence -/

section

variable {x : Float} {scopes scopes' : Scopes}

mutual

/-- Evaluation asks for no counter but those of the names in the expression, and never for one that
is called like the program variable. -/
theorem Expr.eval_congr (e : Expr)
    (h : ∀ n ∈ e.names, n ≠ programVariable → scopes'.get? n = scopes.get? n) :
    e.eval x scopes' = e.eval x scopes := by
  cases e with
  | number | boolean => rfl
  | name n span =>
    rw [eval, eval]
    split
    · rfl
    · rename_i hn
      rw [h n List.mem_cons_self hn]
  | call f arguments span =>
    rw [eval, eval, Expr.evalList_congr arguments h]
  | unary op operand =>
    rw [eval, eval, operand.eval_congr h]
  | binary op left right =>
    rw [names, List.forall_mem_append] at h
    rw [eval, eval, left.eval_congr h.1, right.eval_congr h.2]
  | choice condition yes no =>
    rw [names, List.forall_mem_append, List.forall_mem_append] at h
    rw [eval, eval, condition.eval_congr h.1, yes.eval_congr h.2.1, no.eval_congr h.2.2]

theorem Expr.evalList_congr (es : List Expr)
    (h : ∀ n ∈ Expr.namesOf es, n ≠ programVariable → scopes'.get? n = scopes.get? n) :
    Expr.evalList x scopes' es = Expr.evalList x scopes es := by
  cases es with
  | nil => rfl
  | cons e es =>
    rw [namesOf, List.forall_mem_append] at h
    rw [evalList, evalList, e.eval_congr h.1, Expr.evalList_congr es h.2]

end

end

/-! ## What comes out of an evaluation -/

/-- An expression has a value if all its names mean something. If it fails, then at a reference in
it to a name that means nothing, and this is the first one that evaluation comes to, whatever the
other names without a meaning would stand for. Counters that are not named in the expression, and
those that are called like the program variable, do not matter. -/
theorem Expr.eval_fails_at_first_unbound (e : Expr) (x : Float) (scopes : Scopes) :
    ((∀ n ∈ e.names, scopes.Binds n) → ∃ v, e.eval x scopes = .ok v) ∧
    (∀ r, e.eval x scopes = .error r → r.In e.parts ∧ ¬ scopes.Binds r.name) ∧
    (∀ others r, e.eval x scopes = .error r ↔
      scopes.firstUnbound? (e.visits (scopes.lookup x others)) = some (r.name, r.span)) ∧
    ∀ scopes', (∀ n ∈ e.names, n ≠ programVariable → scopes'.get? n = scopes.get? n) →
      e.eval x scopes' = e.eval x scopes := by
  have hfirst (others : String → Float) (r : UnboundName) : e.eval x scopes = .error r ↔
      scopes.firstUnbound? (e.visits (scopes.lookup x others)) = some (r.name, r.span) := by
    have hsettle : e.eval x scopes = scopes.settle (e.visits (scopes.lookup x others))
      (e.valueBy (scopes.lookup x others)) := e.eval_eq_settle
    rw [hsettle, Scopes.settle_eq_error_iff]
  refine ⟨e.exists_eval_of_binds x, fun r hr => ⟨e.in_parts_of_eval hr, ?_⟩, hfirst,
    fun scopes' h => e.eval_congr h⟩
  have hunbound := List.find?_some ((hfirst (fun _ => 0) r).mp hr)
  exact of_decide_eq_true hunbound

/-- What `(x > 0 || q) && (x < 0 && p || i) ? i + y : z` stands for. -/
def detour : Expr :=
  .choice (.binary .and
      (.binary .or (.binary .greater (.name "x" ⟨1, 2⟩) (.number 0)) (.name "q" ⟨10, 11⟩))
      (.binary .or (.binary .and (.binary .less (.name "x" ⟨17, 18⟩) (.number 0))
        (.name "p" ⟨26, 27⟩)) (.name "i" ⟨31, 32⟩)))
    (.binary .add (.name "i" ⟨36, 37⟩) (.name "y" ⟨40, 41⟩)) (.name "z" ⟨44, 45⟩)

/-- From a positive `x` on, `q`, `p` and `z` are passed over and `y` is the first name without a
meaning. From a negative one on, `q` is. A counter `x` changes nothing. -/
theorem detour_fails_at_y :
    let scopes : Scopes := [⟨"q", 0⟩, ⟨"p", 1⟩, ⟨"i", 2⟩, ⟨"y", 3⟩, ⟨"z", 4⟩]
    parseCondition "(x > 0 || q) && (x < 0 && p || i) ? i + y : z" = .ok detour ∧
    ((∀ n ∈ detour.names, scopes.Binds n) ∧ ∃ v, detour.eval 1 scopes = .ok v) ∧
    detour.visits (Scopes.lookup [⟨"i", 2⟩] 1 fun _ => 7) =
      [("x", ⟨1, 2⟩), ("x", ⟨17, 18⟩), ("i", ⟨31, 32⟩), ("i", ⟨36, 37⟩), ("y", ⟨40, 41⟩)] ∧
    detour.eval 1 [⟨"i", 2⟩] = .error ⟨"y", ⟨40, 41⟩⟩ ∧
    detour.eval (-1) [⟨"i", 2⟩] = .error ⟨"q", ⟨10, 11⟩⟩ ∧
    UnboundName.In ⟨"y", ⟨40, 41⟩⟩ detour.parts ∧ ¬ Scopes.Binds [⟨"i", 2⟩] "y" ∧
    (∀ n ∈ detour.names, n ≠ programVariable →
      Scopes.get? [⟨"x", -1⟩, ⟨"i", 2⟩] n = Scopes.get? [⟨"i", 2⟩] n) ∧
    detour.eval 1 [⟨"x", -1⟩, ⟨"i", 2⟩] = .error ⟨"y", ⟨40, 41⟩⟩ := by
  intro scopes
  have hbinds : ∀ n ∈ detour.names, scopes.Binds n := by decide
  have hsame : ∀ n ∈ detour.names, n ≠ programVariable →
      Scopes.get? [⟨"x", -1⟩, ⟨"i", 2⟩] n = Scopes.get? [⟨"i", 2⟩] n := by decide +kernel
  obtain ⟨hvalue, -⟩ := detour.eval_fails_at_first_unbound 1 scopes
  obtain ⟨-, hunbound, hfirst, hcongr⟩ := detour.eval_fails_at_first_unbound 1 [⟨"i", 2⟩]
  obtain ⟨-, -, hfirst', -⟩ := detour.eval_fails_at_first_unbound (-1) [⟨"i", 2⟩]
  have herror := (hfirst (fun _ => 7) ⟨"y", ⟨40, 41⟩⟩).mpr (by decide +kernel)
  have herror' := (hfirst' (fun _ => 7) ⟨"q", ⟨10, 11⟩⟩).mpr (by decide +kernel)
  obtain ⟨hin, hnone⟩ := hunbound _ herror
  exact ⟨by cbv, ⟨hbinds, hvalue hbinds⟩, by decide +kernel, herror, herror', hin, hnone, hsame,
    (hcongr _ hsame).trans herror⟩

end BlockLang
