import BlockLang.Proofs.Expr.References
import BlockLang.Proofs.Program.Session
import BlockLang.Proofs.Run.Reports
import BlockLang.Run.Buffer

/-!
# What diagnostics say

A diagnostic names a block of the program and says what is the case with it. Main statement: this
holds of every diagnostic of every run of a program that can come up in a session.
-/

namespace BlockLang

variable {ω : Type} {setting : Setting ω} {x : Float} {scopes : Scopes}

/-! ## What is to be said -/

/-- What an error says of a text is so: this is the error of parsing it, or it can be parsed and has
the name at the place. -/
def ExprError.TrueOf {α : Type} (parse : String → Except ParseError α) (text : String) :
    ExprError → Prop
  | .syntaxError error => parse text = .error error
  | .unbound reference => (∃ a, parse text = .ok a) ∧
    reference.span.CutsOut text reference.name ∧ reference.name ≠ programVariable

/-- What the complaint says of a block of the program is so. -/
def Complaint.TrueOf (p : Program) (cap : UInt64) (b : Block) : Complaint → Prop
  | .expression error text => error.span.Fits text ∧
    ((∃ tag code, b = .action tag (.statement code) ∧ code.text = text ∧
        error.TrueOf parseStatement text) ∨
      ∃ code, b.condition? = some code ∧ code.text = text ∧ error.TrueOf parseCondition text)
  | .missingHeader kind missing => b.compoundKind? = some kind ∧ missing = b.missing ∧ missing ≠ []
  | .iterationCap kind reached => b.compoundKind? = some kind ∧
    (kind = .forLoop ∨ kind = .whileLoop) ∧ reached = cap
  | .counterNotFound name => ∃ tag, b = .action tag (.addCounter name)
  | .leaveOutsideLoop => b ∈ p.blocks ∧
    ((∃ tag, b = .action tag .leave) ∨ b.compoundKind? = some .ifElse)
  | .output _ => ∃ tag, b = .action tag .print
  | .interrupted _ => b ∈ p.blocks

/-- The diagnostic is about a block that is found by its id, and what it says is so. A place in a
text comes with complaints about code only, and warnings are complaints of four kinds. -/
structure Diagnostic.Truthful (p : Program) (cap : UInt64) (d : Diagnostic) : Prop where
  block : ∃ b, p.find? d.block = some b ∧ d.complaint.TrueOf p cap b
  excerpt : ∀ text span, d.complaint.excerpt? = some (text, span) ↔
    ∃ error, d.complaint = .expression error text ∧ error.span = span
  isWarning : d.isWarning = true ↔
    (∃ kind missing, d.complaint = .missingHeader kind missing) ∨
    (∃ kind reached, d.complaint = .iterationCap kind reached) ∨
    (∃ name, d.complaint = .counterNotFound name) ∨ d.complaint = .leaveOutsideLoop

/-! ## Code -/

section Code

variable {text : String} {error : ExprError}

/-- A true error has its span inside the text. -/
lemma ExprError.TrueOf.fits {α : Type} {parse : String → Except ParseError α}
    (h : error.TrueOf parse text)
    (hparse : ∀ e, parse text = .error e → e.span.Fits text) : error.span.Fits text := by
  cases error with
  | syntaxError e => exact hparse e h
  | unbound reference => exact h.2.1.toFits

/-- The error of a statement is true of its text. -/
lemma StatementCode.trueOf_of_exec {code : StatementCode} (h : code.exec x scopes = .error error) :
    error.TrueOf parseStatement code.text := by
  rw [StatementCode.exec] at h
  split at h
  case h_1 e hparsed =>
    cases h
    exact code.parsed_eq.symm.trans hparsed
  case h_2 is hparsed =>
    have hok : parseStatement code.text = .ok is := code.parsed_eq.symm.trans hparsed
    cases hexec : execAll scopes is x with
    | ok y =>
      rw [hexec] at h
      cases h
    | error r =>
      rw [hexec] at h
      cases h
      obtain ⟨i, hi, hpart, hname⟩ := exists_in_parts_of_execAll hexec
      have hplaced := (placed_of_parseStatement hok).1 i hi
      exact ⟨⟨is, hok⟩, hplaced.value.name _ _ hpart, hname⟩

/-- The error of a condition is true of its text. -/
lemma ConditionCode.trueOf_of_eval {code : ConditionCode} (h : code.eval x scopes = .error error) :
    error.TrueOf parseCondition code.text := by
  rw [ConditionCode.eval] at h
  split at h
  case h_1 e hparsed =>
    cases h
    exact code.parsed_eq.symm.trans hparsed
  case h_2 e hparsed =>
    have hok : parseCondition code.text = .ok e := code.parsed_eq.symm.trans hparsed
    cases heval : e.eval x scopes with
    | ok v =>
      rw [heval] at h
      cases h
    | error r =>
      rw [heval] at h
      cases h
      obtain ⟨hpart, hname⟩ := e.in_parts_of_eval heval
      exact ⟨⟨e, hok⟩, (placed_of_parseCondition hok).name _ _ hpart, hname⟩

end Code

/-! ## Runs -/

/-- What a block can report is true of it. -/
lemma Block.CanReport.trueOf {p : Program} {cap : UInt64} {b : Block} {c : Complaint}
    (h : b.CanReport cap x scopes c) : c.TrueOf p cap b := by
  cases h with
  | statement hexec =>
    have htrue := StatementCode.trueOf_of_exec hexec
    exact ⟨htrue.fits fun _ => fits_of_parseStatement_eq_error, .inl ⟨_, _, rfl, rfl, htrue⟩⟩
  | condition hcode heval =>
    have htrue := ConditionCode.trueOf_of_eval heval
    exact ⟨htrue.fits fun _ => fits_of_parseCondition_eq_error, .inr ⟨_, hcode, rfl, htrue⟩⟩
  | counter => exact ⟨_, rfl⟩
  | output => exact ⟨_, rfl⟩
  | missing hkind hmissing => exact ⟨hkind, rfl, hmissing⟩
  | @cap b kind x scopes hkind hne =>
    refine ⟨hkind, ?_, rfl⟩
    cases kind with
    | forLoop => exact .inl rfl
    | whileLoop => exact .inr rfl
    | ifElse => exact absurd rfl hne

/-- Only a break or an if/else can be on its way out of a loop. -/
lemma Block.leave_or_ifElse_of_canLeave {b : Block} (h : b.canLeave = true) :
    (∃ tag, b = .action tag .leave) ∨ b.compoundKind? = some .ifElse := by
  cases b with
  | action tag a =>
    cases a with
    | leave => exact .inl ⟨tag, rfl⟩
    | _ => cases h
  | ifElse => exact .inr rfl
  | _ => cases h

mutual

lemma Block.map_block_sites (counters : List String) (inLoop : Bool) (b : Block) :
    (b.sites counters inLoop).map Site.block = b.family := by
  cases b with
  | action => rfl
  | forLoop tag headers body =>
    rw [sites, family, List.map_cons, Block.map_block_sitesOf]
  | whileLoop tag condition body =>
    rw [sites, family, List.map_cons, Block.map_block_sitesOf]
  | ifElse tag condition ifPart elsePart =>
    rw [sites, family, List.map_cons, List.map_append, Block.map_block_sitesOf,
      Block.map_block_sitesOf]

lemma Block.map_block_sitesOf (counters : List String) (inLoop : Bool) (bs : List Block) :
    (Block.sitesOf counters inLoop bs).map Site.block = Block.families bs := by
  cases bs with
  | nil => rfl
  | cons b bs =>
    rw [sitesOf, families, List.map_append, Block.map_block_sites, Block.map_block_sitesOf]

end

/-- Only errors in an expression come with an excerpt. -/
lemma Complaint.excerpt?_eq_some (c : Complaint) (text : String) (span : Span) :
    c.excerpt? = some (text, span) ↔ ∃ error, c = .expression error text ∧ error.span = span := by
  cases c with
  | expression error text' =>
    rw [excerpt?, Option.some.injEq, Prod.mk.injEq]
    constructor
    · rintro ⟨rfl, rfl⟩
      exact ⟨error, rfl, rfl⟩
    · rintro ⟨_, ⟨⟩, rfl⟩
      exact ⟨rfl, rfl⟩
  | _ => simp [excerpt?]

/-- The diagnostics that are warnings. -/
lemma Diagnostic.isWarning_iff (d : Diagnostic) : d.isWarning = true ↔
    (∃ kind missing, d.complaint = .missingHeader kind missing) ∨
    (∃ kind reached, d.complaint = .iterationCap kind reached) ∨
    (∃ name, d.complaint = .counterNotFound name) ∨ d.complaint = .leaveOutsideLoop := by
  obtain ⟨block, complaint⟩ := d
  cases complaint <;> simp [isWarning, Complaint.isWarning]

namespace Session

variable {s : Session} {p : Program}

/-- Every diagnostic of every run of a program of a session names a block of the program and says of
it what is the case. -/
theorem Reachable.diagnostics_truthful (hs : s.Reachable) (hp : p ∈ s.programs)
    (setting : Setting ω) (initial : Float) (channel : ω) :
    ∀ d ∈ (p.run setting initial channel).diagnostics, d.Truthful p setting.iterationCap := by
  have hnodup := hs.sound.nodup_of_mem hp
  have htruthful {b : Block} {c : Complaint} (hb : b ∈ p.family)
      (hc : c.TrueOf p setting.iterationCap b) :
      (⟨b.id, c⟩ : Diagnostic).Truthful p setting.iterationCap :=
    ⟨⟨b, (Program.find?_eq_some_iff hnodup).mpr ⟨hb, rfl⟩, hc⟩, c.excerpt?_eq_some,
      Diagnostic.isWarning_iff _⟩
  -- A report is made at a site, or by the program about the block in a slot.
  refine Program.forall_diagnostics_runSlots ?_ ?_ ?_ initial channel
  · intro site hsite x scopes c _ hc
    have hfamily : site.block ∈ p.family := by
      rw [Program.family, ← Block.map_block_sitesOf [] false]
      exact List.mem_map_of_mem hsite
    exact htruthful hfamily hc.trueOf
  · intro b hb hleave
    exact htruthful (Program.mem_family_of_mem_blocks hb)
      ⟨hb, Block.leave_or_ifElse_of_canLeave hleave⟩
  · intro b hb _ _ why _
    exact htruthful (Program.mem_family_of_mem_blocks hb) hb

/-- A while loop over a name without a meaning, a statement that cannot be read, and a break. -/
def mistaken : Program where
  slots := [
    some (.whileLoop { id := ⟨1⟩ } (some (.ofText "x < far")) []),
    some (.action { id := ⟨2⟩ } (.statement (.ofText "x = é"))),
    some (.action { id := ⟨3⟩ } .leave)]

/-- The places are counted in bytes, of which the last character of the statement has two. -/
theorem mistaken_truthful :
    let outcome := mistaken.run (({} : Limits).setting .still none none) 0 {}
    outcome.diagnostics.map (fun d => (d.block, d.complaint.excerpt?, d.isWarning)) =
        [(⟨1⟩, some ("x < far", ⟨4, 7⟩), false), (⟨2⟩, some ("x = é", ⟨4, 6⟩), false),
          (⟨3⟩, none, true)] ∧
      ∀ d ∈ outcome.diagnostics, d.Truthful mistaken defaultIterationCap := by
  have hload : Step {} ⟨[mistaken], [], ⟨4⟩⟩ :=
    @Step.load {} [.whileLoop (some "x < far") [], .statement "x = é" false, .leave]
  have hreachable : Reachable ⟨[mistaken], [], ⟨4⟩⟩ := .single hload
  have htruthful := hreachable.diagnostics_truthful List.mem_cons_self
    (({} : Limits).setting .still none none) 0 {}
  exact ⟨by decide +kernel, htruthful⟩

end Session

end BlockLang
