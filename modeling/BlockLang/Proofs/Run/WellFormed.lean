import BlockLang.Program.Check
import BlockLang.Proofs.Expr.Names
import BlockLang.Proofs.Run.Reports
import BlockLang.Run.Buffer

/-!
# Well-formed programs

A program is well formed if it can be seen without running it that all its texts can be read, all
its headers are there, all its names mean something and all its breaks have a loop to end. A run of
such a program reports nothing but limits: a loop at its cap, output that was refused, and being
interrupted.
-/

namespace BlockLang

variable {ω : Type}

/-- Complaints about what surrounds a run, not about the program. -/
def Complaint.isLimit : Complaint → Bool
  | iterationCap .. | output _ | interrupted _ => true
  | expression .. | missingHeader .. | counterNotFound _ | leaveOutsideLoop => false

/-- The names in the code of a block itself, as far as it can be read. -/
def Block.codeNames : Block → List String
  | .action _ (.statement code) => (code.parsed.toOption.getD []).flatMap Instruction.names
  | b => ((b.condition?.bind (·.parsed.toOption)).map Expr.names).getD []

/-- The counter that a block adds to the program variable. -/
def Block.addedCounter? : Block → Option String
  | .action _ (.addCounter name) => some name
  | _ => none

def Block.isLeave : Block → Bool
  | .action _ .leave => true
  | _ => false

/-- What is asked of every block of a well-formed program. -/
structure Site.WellFormed (site : Site) : Prop where
  readable : site.block.unreadable? = none
  complete : site.block.missing = []
  bound : ∀ n ∈ site.block.codeNames, n = programVariable ∨ n ∈ site.counters
  counter : ∀ n ∈ site.block.addedCounter?, n ∈ site.counters
  enclosed : site.block.isLeave = true → site.inLoop = true

instance : DecidablePred Site.WellFormed := fun site =>
  decidable_of_iff
    (site.block.unreadable? = none ∧ site.block.missing = [] ∧
      (∀ n ∈ site.block.codeNames, n = programVariable ∨ n ∈ site.counters) ∧
      (∀ n ∈ site.block.addedCounter?, n ∈ site.counters) ∧
      (site.block.isLeave = true → site.inLoop = true))
    ⟨fun ⟨hr, hm, hn, hc, hl⟩ => ⟨hr, hm, hn, hc, hl⟩,
      fun ⟨hr, hm, hn, hc, hl⟩ => ⟨hr, hm, hn, hc, hl⟩⟩

def Program.WellFormed (p : Program) : Prop :=
  ∀ site ∈ p.sites, site.WellFormed

instance (p : Program) : Decidable p.WellFormed :=
  inferInstanceAs (Decidable (∀ site ∈ p.sites, site.WellFormed))

namespace Site.WellFormed

variable {site : Site} {scopes : Scopes}

/-- Every name in the code of a well-formed site means something while the site is run. -/
lemma binds (h : site.WellFormed) (hs : scopes.map Scope.name = site.counters) {n : String}
    (hn : n ∈ site.block.codeNames) : scopes.Binds n := by
  rcases h.bound n hn with rfl | hc
  · exact .inl rfl
  · rw [← hs] at hc
    exact .inr (Scopes.exists_get?_of_mem hc)

/-- At a well-formed site, a statement runs. -/
lemma exists_exec (h : site.WellFormed) (hs : scopes.map Scope.name = site.counters) {tag : Tag}
    {code : StatementCode} (hb : site.block = .action tag (.statement code)) (x : Float) :
    ∃ y, code.exec x scopes = .ok y := by
  have hr := h.readable
  rw [hb] at hr
  cases hp : code.parsed with
  | error e => simp [Block.unreadable?, Code.unreadable?, hp] at hr
  | ok instructions =>
    have hbinds : ∀ i ∈ instructions, ∀ n ∈ i.names, scopes.Binds n := by
      intro i hi n hn
      refine h.binds hs ?_
      rw [hb, Block.codeNames, hp]
      exact List.mem_flatMap.mpr ⟨i, hi, hn⟩
    obtain ⟨y, hy⟩ := exists_execAll_of_binds instructions x hbinds
    exact ⟨y, by simp only [StatementCode.exec, hp, hy]; rfl⟩

/-- At a well-formed site, a condition has a value. -/
lemma exists_eval (h : site.WellFormed) (hs : scopes.map Scope.name = site.counters)
    {code : ConditionCode} (hc : site.block.condition? = some code) (x : Float) :
    ∃ v, code.eval x scopes = .ok v := by
  have hr := h.readable
  have hb : ∀ n ∈ site.block.codeNames, scopes.Binds n := fun n hn => h.binds hs hn
  obtain ⟨block, counters, inLoop⟩ := site
  -- A block with a condition is compound, so what can be read of it is its condition.
  cases block with
  | action tag a => cases hc
  | _ =>
    cases hp : code.parsed with
    | error e => simp [Block.unreadable?, hc, Code.unreadable?, hp] at hr
    | ok e =>
      have hbinds : ∀ n ∈ e.names, scopes.Binds n := by
        intro n hn
        refine hb n ?_
        simpa only [Block.codeNames, hc, Option.bind_some, hp, Except.toOption,
          Option.map_some, Option.getD_some] using hn
      obtain ⟨v, hv⟩ := e.exists_eval_of_binds x hbinds
      exact ⟨v, by simp only [ConditionCode.eval, hp, hv]; rfl⟩

/-- All that can be reported about a well-formed site is a limit. -/
lemma isLimit_of_canReport (h : site.WellFormed) (hs : scopes.map Scope.name = site.counters)
    {cap : UInt64} {x : Float} {c : Complaint} (hc : site.block.CanReport cap x scopes c) :
    c.isLimit = true := by
  generalize hb : site.block = b at hc
  cases hc with
  -- Names without a meaning, texts that are not read and headers that are missing are ruled out.
  | statement he =>
    obtain ⟨y, hy⟩ := h.exists_exec hs hb x
    rw [hy] at he
    cases he
  | condition hcond he =>
    rw [← hb] at hcond
    obtain ⟨v, hv⟩ := h.exists_eval hs hcond x
    rw [hv] at he
    cases he
  | counter hn =>
    have hm := h.counter _ (by rw [hb]; rfl)
    rw [← hs] at hm
    obtain ⟨a, ha⟩ := Scopes.exists_get?_of_mem hm
    rw [ha] at hn
    cases hn
  | output => rfl
  | missing _ hm =>
    rw [← hb] at hm
    exact absurd h.complete hm
  | cap => rfl

end Site.WellFormed

mutual

/-- Outside loops a well-formed block is never on the way out of one. -/
theorem Block.canLeave_eq_false {counters : List String} (b : Block)
    (h : ∀ site ∈ b.sites counters false, site.WellFormed) : b.canLeave = false := by
  cases b with
  | action tag a =>
    cases a with
    | leave =>
      have hsite := h ⟨.action tag .leave, counters, false⟩ (by simp [sites])
      cases hsite.enclosed rfl
    | statement code => rfl
    | print => rfl
    | addCounter name => rfl
  | forLoop tag headers body => rfl
  | whileLoop tag condition body => rfl
  | ifElse tag condition ifPart elsePart =>
    simp only [sites, List.mem_cons, List.mem_append] at h
    rw [canLeave, Block.anyCanLeave_eq_false ifPart fun site hs => h site (.inr (.inl hs)),
      Block.anyCanLeave_eq_false elsePart fun site hs => h site (.inr (.inr hs)), Bool.or_false]

/-- A well-formed list outside loops has no way to leave. -/
theorem Block.anyCanLeave_eq_false {counters : List String} (bs : List Block)
    (h : ∀ site ∈ Block.sitesOf counters false bs, site.WellFormed) :
    Block.anyCanLeave bs = false := by
  cases bs with
  | nil => rfl
  | cons b bs =>
    simp only [sitesOf, List.mem_append] at h
    rw [anyCanLeave, Block.canLeave_eq_false b fun site hs => h site (.inl hs),
      Block.anyCanLeave_eq_false bs fun site hs => h site (.inr hs), Bool.or_false]

end

/-- Whatever surrounds it, a run of a well-formed program reports only loops that reached the
iteration cap, refused output, and being interrupted. -/
theorem Program.WellFormed.isLimit_of_mem_diagnostics {p : Program} (h : p.WellFormed)
    (setting : Setting ω) (initial : Float) (channel : ω) :
    ∀ d ∈ (p.run setting initial channel).diagnostics, d.complaint.isLimit = true := by
  refine forall_diagnostics_runSlots ?_ ?_ ?_ initial channel
  · intro site hsite x scopes c hs hc
    exact (h site hsite).isLimit_of_canReport hs hc
  · intro b hb hl
    have hfalse : b.canLeave = false :=
      b.canLeave_eq_false fun site hs => h site (b.sites_subset_sitesOf hb [] false hs)
    rw [hfalse] at hl
    cases hl
  · intro b _ y t why _
    rfl

/-- A loop over `i` with a break inside an if/else, a step of the counter taken in, and a loop in
the loop that uses the counter of the outer one. -/
def nestedLoops : Program where
  slots := [
    some (.forLoop ⟨⟨1⟩, false, 0⟩ ⟨some ⟨"i", 0⟩, some (.ofText "i < x"), some 1⟩ [
      .ifElse ⟨⟨2⟩, false, 0⟩ (some (.ofText "i == x")) [.action ⟨⟨3⟩, false, 0⟩ .leave]
        [.action ⟨⟨4⟩, false, 0⟩ (.statement (.ofText "x -= i"))],
      .action ⟨⟨5⟩, false, 0⟩ (.addCounter "i"),
      .whileLoop ⟨⟨6⟩, false, 0⟩ (some (.ofText "x < i")) [.action ⟨⟨7⟩, false, 0⟩ .print]]),
    none]

theorem nestedLoops_isLimit :
    nestedLoops.WellFormed ∧
      ∀ d ∈ (nestedLoops.run (({} : Limits).setting .still none none) 4 {}).diagnostics,
        d.complaint.isLimit = true := by
  have h : nestedLoops.WellFormed := by decide +kernel
  exact ⟨h, h.isLimit_of_mem_diagnostics _ 4 _⟩

end BlockLang
