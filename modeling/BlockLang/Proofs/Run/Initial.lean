import BlockLang.Proofs.Expr.Numbers
import BlockLang.Proofs.Run.Alike

/-!
# The value that a program begins with

A new program begins with a block that sets its variable, with a text for the number. Main
statement: the blocks behind it run as they do on their own from that number, whatever number the
run begins with, but for the negative zero, whose text is that of zero.
-/

namespace BlockLang

open Float.Model Float.Model.UnpackedFloat

/-! ## Setting the variable -/

section

variable {text : String} {ts : List Lexeme} {e : Expr}

/-- An assignment to the program variable has the lexemes of what is assigned from byte 4 on. -/
lemma ofText_set (h : Lexeme.ofText text = .ok ts) :
    Lexeme.ofText ("x = " ++ text) = .ok (⟨.name "x", ⟨0, 1⟩⟩ :: ⟨.symbol .assign, ⟨2, 3⟩⟩ ::
      ts.map (Lexeme.moved (· + 4))) := by
  have hhead : Lexeme.ofText "x =" = .ok [⟨.name "x", ⟨0, 1⟩⟩, ⟨.symbol .assign, ⟨2, 3⟩⟩] :=
    eq_ok_of_toOption_eq_some (by decide +kernel)
  have hsize : "x =".utf8ByteSize = 3 := rfl
  have htext : "x = " ++ text = "x =" ++ (" " ++ text) := by
    rw [← String.append_assoc]
    rfl
  rw [htext, ofText_append (toList_blank_append text) (by decide) hhead (ofText_blank h), hsize,
    Lexeme.map_moved_moved]
  rfl

/-- To set the variable to the value of an expression that cannot fail. -/
lemma exec_set {v : Value} (h : parseCondition text = .ok e)
    (heval : ∀ x scopes, e.eval x scopes = .ok v) (x : Float) (scopes : Scopes) :
    StatementCode.exec (.ofText ("x = " ++ text)) x scopes = .ok v.toNumber := by
  obtain ⟨ts, hts, ⟨d, rfl⟩⟩ := exists_lexemes_of_parseCondition h
  have hparse := parseStatement_assignment .set (ofText_set hts) rfl (d.exists_moved (· + 4))
  rw [exec_assignment hparse, Expr.eval_moved, heval]
  rfl

end

/-! ## Numbers without digits -/

/-- To set the variable to something divided by zero. -/
lemma exec_set_over_zero {text : String} {ts : List Lexeme} {e : Expr} {slash zero : Span}
    {v : Value} (hread : Lexeme.ofText text = .ok (ts ++ ⟨.symbol .slash, slash⟩ ::
      [⟨.number 0, zero⟩])) (h : Derives .unary ts e)
    (heval : ∀ x scopes, (Expr.binary .divide e (.number 0)).eval x scopes = .ok v)
    (x : Float) (scopes : Scopes) :
    StatementCode.exec (.ofText ("x = " ++ text)) x scopes = .ok v.toNumber := by
  have hleft : Derives (.layer .product) ts e := h.of_power_le (by decide)
  have hquotient := hleft.operation .divide (t := ⟨.symbol .slash, slash⟩) rfl
    (derives_number 0 zero)
  exact exec_set ((parseCondition_eq_ok_iff hread).mpr (hquotient.of_power_le (by decide))) heval x
    scopes

/-- Zero divided by zero is no number. -/
lemma exec_set_nan (x : Float) (scopes : Scopes) :
    StatementCode.exec (.ofText ("x = " ++ "0 / 0")) x scopes = .ok Number.nan := by
  have hread : Lexeme.ofText "0 / 0" =
      .ok ([⟨.number 0, ⟨0, 1⟩⟩] ++ ⟨.symbol .slash, ⟨2, 3⟩⟩ :: [⟨.number 0, ⟨4, 5⟩⟩]) :=
    eq_ok_of_toOption_eq_some (by decide +kernel)
  have hvalue : (0 : Float) / 0 = Number.nan := by decide +kernel
  rw [← hvalue]
  exact exec_set_over_zero hread (derives_number 0 _) (fun _ _ => rfl) x scopes

/-- One divided by zero is infinity. -/
lemma exec_set_infinity (x : Float) (scopes : Scopes) :
    StatementCode.exec (.ofText ("x = " ++ "1 / 0")) x scopes = .ok Number.infinity := by
  have hread : Lexeme.ofText "1 / 0" =
      .ok ([⟨.number 1, ⟨0, 1⟩⟩] ++ ⟨.symbol .slash, ⟨2, 3⟩⟩ :: [⟨.number 0, ⟨4, 5⟩⟩]) :=
    eq_ok_of_toOption_eq_some (by decide +kernel)
  have hvalue : (1 : Float) / 0 = Number.infinity := by decide +kernel
  rw [← hvalue]
  exact exec_set_over_zero hread (derives_number 1 _) (fun _ _ => rfl) x scopes

/-- The minus belongs to the one that is divided. -/
lemma exec_set_neg_infinity (x : Float) (scopes : Scopes) :
    StatementCode.exec (.ofText ("x = " ++ "-1 / 0")) x scopes = .ok (-Number.infinity) := by
  have hread : Lexeme.ofText "-1 / 0" =
      .ok ([⟨.symbol .minus, ⟨0, 1⟩⟩, ⟨.number 1, ⟨1, 2⟩⟩] ++
        ⟨.symbol .slash, ⟨3, 4⟩⟩ :: [⟨.number 0, ⟨5, 6⟩⟩]) :=
    eq_ok_of_toOption_eq_some (by decide +kernel)
  have hvalue : (-1 : Float) / 0 = -Number.infinity := by decide +kernel
  rw [← hvalue]
  exact exec_set_over_zero hread (derives_minus_number 1 _ _) (fun _ _ => rfl) x scopes

/-! ## The first block -/

/-- What a program begins with where `a` is asked for. -/
def Number.withoutZeroSign (a : Float) : Float := if a = -0 then 0 else a

/-- A finite number is assigned by its label. -/
lemma initializerText_finite {a : Float} {s : Sign} {m : ℕ} {e : ℤ} {hm : 0 < m}
    (h : a.toModel.unpack = .finite s m e hm) :
    initializerText a = "x = " ++ Number.labelText a := by
  have hnan : a.isNaN = false := congrArg UnpackedFloat.isNaN h
  have hinf : a.isInf = false := congrArg UnpackedFloat.isInf h
  have hhead : programVariable ++ " = " = "x = " := rfl
  rw [initializerText, hnan, hinf, hhead]
  rfl

/-- The block that begins a program sets the variable to the number that the program was made for.
The negative zero loses its sign. -/
theorem exec_initializerText (a x : Float) (scopes : Scopes) :
    StatementCode.exec (.ofText (initializerText a)) x scopes =
      .ok (Number.withoutZeroSign a) := by
  have ha := Number.ofModel_pack_unpack a
  cases hunpack : a.toModel.unpack with
  -- The numbers without digits are written as divisions by zero.
  | notANumber =>
    rw [hunpack] at ha
    have htext : initializerText Number.nan = "x = " ++ "0 / 0" := by decide +kernel
    have hsame : Number.withoutZeroSign Number.nan = Number.nan := by decide +kernel
    obtain rfl : Number.nan = a := ha
    rw [htext, hsame]
    exact exec_set_nan x scopes
  | infinity s =>
    rw [hunpack] at ha
    cases s with
    | negative =>
      have htext : initializerText (-Number.infinity) = "x = " ++ "-1 / 0" := by decide +kernel
      have hsame : Number.withoutZeroSign (-Number.infinity) = -Number.infinity := by
        decide +kernel
      obtain rfl : -Number.infinity = a :=
        (Number.neg_ofModel_pack (Number.model_unpack_pack_infinity .positive)).trans ha
      rw [htext, hsame]
      exact exec_set_neg_infinity x scopes
    | positive =>
      have htext : initializerText Number.infinity = "x = " ++ "1 / 0" := by decide +kernel
      have hsame : Number.withoutZeroSign Number.infinity = Number.infinity := by decide +kernel
      obtain rfl : Number.infinity = a := ha
      rw [htext, hsame]
      exact exec_set_infinity x scopes
  -- Both zeros have one text, so the sign is lost here and only here.
  | zero s =>
    rw [hunpack] at ha
    have htext : ∀ t, initializerText (.ofModel (.pack (.zero t))) = "x = " ++ "0" := by
      intro t
      cases t <;> decide +kernel
    have hzero : ∀ t, Number.withoutZeroSign (.ofModel (.pack (.zero t))) = 0 := by
      intro t
      cases t <;> decide +kernel
    have hread : Lexeme.ofText "0" = .ok [⟨.number 0, ⟨0, 1⟩⟩] :=
      eq_ok_of_toOption_eq_some (by decide +kernel)
    have hparse := (parseCondition_eq_ok_iff hread).mpr
      ((derives_number 0 ⟨0, 1⟩).of_power_le (by decide))
    rw [← ha, htext, hzero]
    exact exec_set hparse (fun _ _ => rfl) x scopes
  | finite s m e hm =>
    obtain ⟨expr, hparse, heval⟩ := exists_parseCondition_labelText hunpack
    have hne : a ≠ -0 := by
      rintro rfl
      have hnegative : (-0 : Float) = .ofModel (.pack (.zero .negative)) := by decide +kernel
      rw [hnegative] at hunpack
      have hzero := hunpack.symm.trans (Number.model_unpack_pack_zero .negative)
      cases hzero
    have hsame : Number.withoutZeroSign a = a := if_neg hne
    rw [initializerText_finite hunpack, hsame]
    exact exec_set hparse heval x scopes

namespace Program

variable {ω : Type}

/-- A program that was made for a number, with more blocks behind the first, ends as those blocks do
on their own, begun with that number, whatever number its run begins with. So do other blocks with
other ids that are the same. Instead of the negative zero they begin with zero. -/
theorem run_new_append (id : BlockId) (a y : Float) (more : List (Option Block))
    (setting : Setting ω) (channel : ω) :
    (mk ((new id a).slots ++ more)).run setting y channel =
        (mk more).run setting (Number.withoutZeroSign a) channel ∧
      ∀ p : Program, p.untagged = (mk more).untagged →
        ((mk ((new id a).slots ++ more)).run setting y channel).Matches (mk more).ids p.ids
          (p.run setting (Number.withoutZeroSign a) channel) := by
  have hrun : (mk ((new id a).slots ++ more)).run setting y channel =
      (mk more).run setting (Number.withoutZeroSign a) channel := by
    have hblocks : (mk ((new id a).slots ++ more)).blocks =
        Block.initializer id a :: (mk more).blocks := rfl
    have hfirst : (Block.initializer id a).run setting y { channel } =
        (.value (Number.withoutZeroSign a), { channel }) := by
      rw [Block.initializer, Block.run, Action.run, exec_initializerText]
    rw [run, hblocks, runSlots, hfirst]
    rfl
  refine ⟨hrun, fun p hp => ?_⟩
  rw [hrun]
  exact (run_alike hp setting _ channel).matches (Block.length_idsOf_eq hp)

/-- A gap, a block that divides by the variable and a print block. -/
def reciprocal (first second : BlockId) : Program where
  slots := [none, some (.action { id := first } (.statement (.ofText "x = 1 / x"))),
    some (.action { id := second } .print)]

/-- Behind the block for the negative zero the variable is zero, and the reciprocal is the other
infinity than that of the negative zero. -/
theorem run_new_append_reciprocal :
    let setting := ({} : Limits).setting .still none none
    let whole := (mk ((new ⟨1⟩ (-0)).slots ++ (reciprocal ⟨2⟩ ⟨3⟩).slots)).run setting 5 {}
    whole.Matches [⟨2⟩, ⟨3⟩] [⟨7⟩, ⟨4⟩] ((reciprocal ⟨7⟩ ⟨4⟩).run setting 0 {}) ∧
      whole.value = Number.infinity ∧
      ((reciprocal ⟨2⟩ ⟨3⟩).run setting (-0) {}).value = -Number.infinity := by
  intro setting whole
  have hzero : Number.withoutZeroSign (-0) = 0 := by decide +kernel
  have hmatches := (run_new_append ⟨1⟩ (-0) 5 (reciprocal ⟨2⟩ ⟨3⟩).slots setting {}).2
    (reciprocal ⟨7⟩ ⟨4⟩) rfl
  rw [hzero] at hmatches
  exact ⟨hmatches, by decide +kernel, by decide +kernel⟩

end Program

end BlockLang
