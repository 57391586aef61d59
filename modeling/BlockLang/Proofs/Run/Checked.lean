import BlockLang.CommandLine.Reply
import BlockLang.Proofs.Program.Addresses
import BlockLang.Proofs.Run.Truthful

/-!
# Checked programs

Checking a program goes over its texts and runs nothing, and a run comes to a text when a block uses
it. Main statement: checking counts each place in the program whose text cannot be read, and what a
run says of a text that cannot be read is one of the things that checking says.
-/

namespace BlockLang

/-- The text that a block itself has, of a statement or of a condition that is attached, cannot be
read. -/
def Block.Unparsed (b : Block) (text : String) (error : ParseError) : Prop :=
  (∃ tag code, b = .action tag (.statement code) ∧ code.text = text ∧
      parseStatement text = .error error) ∨
    ∃ code, b.condition? = some code ∧ code.text = text ∧ parseCondition text = .error error

/-! ## Blocks -/

/-- Code is reported with its block, its text and the error if it cannot be read. -/
lemma Code.unreadable?_eq_some_iff {α : Type} {parse : String → Except ParseError α}
    {id : BlockId} {code : Code parse} {u : UnreadableText} :
    code.unreadable? id = some u ↔
      u.block = id ∧ code.text = u.text ∧ parse u.text = .error u.error := by
  obtain ⟨block, text, error⟩ := u
  have hparsed := code.parsed_eq
  rw [unreadable?]
  cases h : code.parsed with
  | ok a =>
    rw [h] at hparsed
    constructor
    · intro hu
      cases hu
    · rintro ⟨-, rfl, herror⟩
      exact absurd (hparsed.trans herror) (by simp)
  | error e =>
    rw [h] at hparsed
    constructor
    · intro hu
      cases hu
      exact ⟨rfl, rfl, hparsed.symm⟩
    · rintro ⟨rfl, rfl, herror⟩
      rw [Except.error.inj (hparsed.trans herror)]

/-- So is the code of a block. -/
lemma Block.unreadable?_eq_some_iff {b : Block} {u : UnreadableText} :
    b.unreadable? = some u ↔ u.block = b.id ∧ b.Unparsed u.text u.error := by
  have hcondition : b.condition?.bind (Code.unreadable? b.id) = some u ↔ u.block = b.id ∧
      ∃ code, b.condition? = some code ∧ code.text = u.text ∧
        parseCondition u.text = .error u.error := by
    simp only [Option.bind_eq_some_iff, Code.unreadable?_eq_some_iff]
    constructor
    · rintro ⟨code, hcode, hid, h⟩
      exact ⟨hid, code, hcode, h⟩
    · rintro ⟨hid, code, hcode, h⟩
      exact ⟨code, hcode, hid, h⟩
  -- A statement has its own text, and any other block has the one of its condition.
  by_cases h : ∃ tag code, b = .action tag (.statement code)
  · obtain ⟨tag, code, rfl⟩ := h
    rw [unreadable?, Code.unreadable?_eq_some_iff]
    refine and_congr_right fun _ => ?_
    constructor
    · exact fun hu => .inl ⟨tag, code, rfl, hu⟩
    · rintro (⟨_, _, ⟨⟩, hu⟩ | ⟨_, hcode, -⟩)
      · exact hu
      · cases hcode
  · have hstatement : b.unreadable? = b.condition?.bind (Code.unreadable? b.id) := by
      rw [unreadable?]
      intro tag code hb
      exact h ⟨tag, code, hb⟩
    rw [hstatement, hcondition]
    refine and_congr_right fun _ => ?_
    constructor
    · exact .inr
    · rintro (⟨tag, code, hb, -⟩ | hu)
      · exact absurd ⟨tag, code, hb⟩ h
      · exact hu

/-! ## Programs -/

namespace Program

/-- The texts that cannot be read, with the addresses of their blocks. -/
def unreadableAt (p : Program) : List (Address × UnreadableText) :=
  p.charted.filterMap fun (a, b) => b.unreadable?.map (a, ·)

variable {p : Program}

/-- Without their addresses the unreadable texts are those that are reported. -/
lemma map_snd_unreadableAt (p : Program) : p.unreadableAt.map Prod.snd = p.unreadable := by
  rw [unreadableAt, unreadable, ← map_snd_charted, List.map_filterMap, List.filterMap_map]
  congr 1
  funext q
  simp [Option.map_map, Function.comp_def]

/-- No address is that of two unreadable texts. -/
lemma nodup_unreadableAt (p : Program) : (p.unreadableAt.map Prod.fst).Nodup := by
  refine p.nodup_charted.sublist ?_
  rw [unreadableAt]
  generalize p.charted = places
  induction places with
  | nil => exact .slnil
  | cons q places ih =>
    obtain ⟨a, b⟩ := q
    cases hu : b.unreadable? with
    | none =>
      simp only [List.filterMap_cons, hu, Option.map_none]
      exact ih.cons a
    | some u =>
      simp only [List.filterMap_cons, hu, Option.map_some, List.map_cons]
      exact ih.cons_cons a

/-- There is an unreadable text at an address if the block there has one. -/
lemma mem_unreadableAt_iff {a : Address} {u : UnreadableText} :
    (a, u) ∈ p.unreadableAt ↔
      ∃ b, p.follow? a = some b ∧ u.block = b.id ∧ b.Unparsed u.text u.error := by
  simp only [unreadableAt, List.mem_filterMap, Prod.exists, Option.map_eq_some_iff,
    Prod.mk.injEq, mem_charted_iff]
  constructor
  · rintro ⟨_, b, hb, _, hu, rfl, rfl⟩
    exact ⟨b, hb, Block.unreadable?_eq_some_iff.mp hu⟩
  · rintro ⟨b, hb, hu⟩
    exact ⟨a, b, hb, u, Block.unreadable?_eq_some_iff.mpr hu, rfl, rfl⟩

/-- What a run says of a text that cannot be read is said by checking. -/
lemma mem_unreadable_of_mem_diagnostics {ω : Type} (setting : Setting ω) (initial : Float)
    (channel : ω) : ∀ d ∈ (p.run setting initial channel).diagnostics, ∀ error text,
      d.complaint = .expression (.syntaxError error) text →
        ⟨d.block, text, error⟩ ∈ p.unreadable := by
  refine forall_diagnostics_runSlots ?_ ?_ ?_ initial channel
  · intro site hsite x scopes c _ hc error text heq
    have hfamily : site.block ∈ p.family := by
      rw [family, ← Block.map_block_sitesOf [] false]
      exact List.mem_map_of_mem hsite
    have heq : c = .expression (.syntaxError error) text := heq
    subst heq
    -- What is true of the complaint is what is asked of the block.
    have hunparsed : site.block.Unparsed text error := (hc.trueOf (p := p)).2
    exact List.mem_filterMap.mpr
      ⟨site.block, hfamily, Block.unreadable?_eq_some_iff.mpr ⟨rfl, hunparsed⟩⟩
  · intro b _ _ error text heq
    cases heq
  · intro b _ _ _ why _ error text heq
    cases heq

/-- Checking says one thing of each place in the program where a text cannot be read, and succeeds
if there is none. Then no run, in whatever setting, meets a text that cannot be read, and in any
case a run says of such a text, with the block and the place in the text, what checking says. -/
theorem unreadable_covers_runs (p : Program) :
    (∃ reports : List (Address × UnreadableText), reports.map Prod.snd = p.unreadable ∧
      (reports.map Prod.fst).Nodup ∧
      ∀ a u, (a, u) ∈ reports ↔
        ∃ b, p.follow? a = some b ∧ u.block = b.id ∧ b.Unparsed u.text u.error) ∧
    (∀ o : CommandLine.RunOptions, (o.checkReply p).exitCode = 0 ↔
      ∀ a b, p.follow? a = some b → ∀ text error, ¬ b.Unparsed text error) ∧
    ∀ {ω : Type} (setting : Setting ω) (initial : Float) (channel : ω),
      (p.unreadable.length = 0 → ∀ d ∈ (p.run setting initial channel).diagnostics,
        ∀ error text, d.complaint ≠ .expression (.syntaxError error) text) ∧
      ∀ d ∈ (p.run setting initial channel).diagnostics, ∀ error text,
        d.complaint = .expression (.syntaxError error) text →
          ∃ u ∈ p.unreadable, u.block = d.block ∧ u.error.message = d.message ∧
            d.complaint.excerpt? = some (u.text, u.error.span) := by
  refine ⟨⟨p.unreadableAt, p.map_snd_unreadableAt, p.nodup_unreadableAt, ?_⟩, ?_, ?_⟩
  · exact fun a u => mem_unreadableAt_iff
  · intro o
    -- No reports means no place with a text that cannot be read.
    have hempty : p.unreadable = [] ↔
        ∀ a b, p.follow? a = some b → ∀ text error, ¬ b.Unparsed text error := by
      rw [← map_snd_unreadableAt, List.map_eq_nil_iff, List.eq_nil_iff_forall_not_mem]
      constructor
      · intro h a b hb text error hunparsed
        exact h (a, ⟨b.id, text, error⟩) (mem_unreadableAt_iff.mpr ⟨b, hb, rfl, hunparsed⟩)
      · rintro h ⟨a, u⟩ hu
        obtain ⟨b, hb, -, hunparsed⟩ := mem_unreadableAt_iff.mp hu
        exact h a b hb u.text u.error hunparsed
    rw [← hempty, CommandLine.RunOptions.checkReply]
    cases p.unreadable <;> simp
  · intro ω setting initial channel
    have hcovered := mem_unreadable_of_mem_diagnostics (p := p) setting initial channel
    constructor
    · intro hzero d hd error text heq
      have hmem := hcovered d hd error text heq
      rw [List.length_eq_zero_iff.mp hzero] at hmem
      cases hmem
    · intro d hd error text heq
      refine ⟨_, hcovered d hd error text heq, rfl, ?_, ?_⟩
      · rw [Diagnostic.message, heq]
        rfl
      · rw [heq]
        rfl

end Program

/-- A statement that cannot be read and a while loop with a condition that cannot be read, in the
two sections of an if/else, and the same condition on a for loop that has no other headers. -/
def misspelt : Program where
  slots := [
    none,
    some (.ifElse { id := ⟨1⟩ } (some (.ofText "x < 1"))
      [.action { id := ⟨2⟩ } (.statement (.ofText "x = )"))]
      [.whileLoop { id := ⟨3⟩ } (some (.ofText "x <")) []]),
    some (.forLoop { id := ⟨4⟩ } ⟨none, some (.ofText "x <"), none⟩ [])]

/-- The run comes to the first of three texts that cannot be read. -/
theorem misspelt_unreadable_covers :
    let outcome := misspelt.run (({} : Limits).setting .still none none) 0 {}
    misspelt.unreadable.map (fun u => (u.block, u.text)) =
        [(⟨2⟩, "x = )"), (⟨3⟩, "x <"), (⟨4⟩, "x <")] ∧
      outcome.diagnostics.map (fun d => (d.block, d.complaint.excerpt?)) =
        [(⟨2⟩, some ("x = )", ⟨4, 5⟩)), (⟨4⟩, none)] ∧
      ∀ d ∈ outcome.diagnostics, ∀ error text,
        d.complaint = .expression (.syntaxError error) text →
          ∃ u ∈ misspelt.unreadable, u.block = d.block ∧ u.error.message = d.message ∧
            d.complaint.excerpt? = some (u.text, u.error.span) := by
  intro outcome
  have hcovers := (misspelt.unreadable_covers_runs.2.2
    (({} : Limits).setting .still none none) 0 {}).2
  exact ⟨by decide +kernel, by decide +kernel, hcovers⟩

end BlockLang
