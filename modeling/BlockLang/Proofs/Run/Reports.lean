import BlockLang.Proofs.Run.Counters
import BlockLang.Proofs.Run.Leaving

/-!
# Where reports come from

What a run reports about a block depends on the block and on the counters around it. The sites of a
block list the blocks in it with the names of those counters. A relation between states that the
reports of all sites respect, and that does not look at counters, holds across every run.
-/

namespace BlockLang

variable {ω : Type} {setting : Setting ω}

/-! ## Sites -/

/-- A block with what is around it in a program. -/
structure Site where
  block : Block
  /-- The names of the counters that the code of the block can use, innermost first. A for loop can
  use its own. -/
  counters : List String
  inLoop : Bool

mutual

/-- The sites of a block and of all blocks inside it. -/
def Block.sites (counters : List String) (inLoop : Bool) : Block → List Site
  | .action tag a => [⟨.action tag a, counters, inLoop⟩]
  | .forLoop tag headers body =>
    ⟨.forLoop tag headers body, (headers.init.map Init.counter).toList ++ counters, inLoop⟩ ::
      Block.sitesOf ((headers.init.map Init.counter).toList ++ counters) true body
  | .whileLoop tag condition body =>
    ⟨.whileLoop tag condition body, counters, inLoop⟩ :: Block.sitesOf counters true body
  | .ifElse tag condition ifPart elsePart =>
    ⟨.ifElse tag condition ifPart elsePart, counters, inLoop⟩ ::
      (Block.sitesOf counters inLoop ifPart ++ Block.sitesOf counters inLoop elsePart)

def Block.sitesOf (counters : List String) (inLoop : Bool) : List Block → List Site
  | [] => []
  | b :: bs => b.sites counters inLoop ++ Block.sitesOf counters inLoop bs

end

/-- The sites of a program. Around the blocks in its slots there is nothing. -/
def Program.sites (p : Program) : List Site :=
  Block.sitesOf [] false p.blocks

/-- The sites of a block are among those of a list with it. -/
lemma Block.sites_subset_sitesOf {b : Block} {bs : List Block} (h : b ∈ bs)
    (counters : List String) (inLoop : Bool) :
    b.sites counters inLoop ⊆ Block.sitesOf counters inLoop bs := by
  induction bs with
  | nil => simp at h
  | cons c cs ih =>
    rw [Block.sitesOf]
    rcases List.mem_cons.mp h with rfl | h
    · exact List.subset_append_left _ _
    · exact List.subset_append_of_subset_right _ (ih h)

/-! ## Reports -/

/-- What a run can report about a block with the given counters around it. -/
inductive Block.CanReport (cap : UInt64) : Block → Float → Scopes → Complaint → Prop
  | statement {tag code x scopes error} : code.exec x scopes = .error error →
    CanReport cap (.action tag (.statement code)) x scopes (.expression error code.text)
  | condition {b code x scopes error} : b.condition? = some code →
    code.eval x scopes = .error error → CanReport cap b x scopes (.expression error code.text)
  | counter {tag name x scopes} : scopes.get? name = none →
    CanReport cap (.action tag (.addCounter name)) x scopes (.counterNotFound name)
  | output {tag x scopes reason} : CanReport cap (.action tag .print) x scopes (.output reason)
  | missing {b kind x scopes} : b.compoundKind? = some kind → b.missing ≠ [] →
    CanReport cap b x scopes (.missingHeader kind b.missing)
  | cap {b kind x scopes} : b.compoundKind? = some kind → kind ≠ .ifElse →
    CanReport cap b x scopes (.iterationCap kind cap)

/-- A relation between the states of a run that holds across all it can do at the given sites. -/
structure Kept (setting : Setting ω) (sites : List Site)
    (R : RunState ω → RunState ω → Prop) : Prop where
  refl : ∀ s, R s s
  trans : ∀ {s t u}, R s t → R t u → R s u
  check : ∀ s, R s { s with checks := s.checks + 1 }
  rescope : ∀ s scopes, R s { s with scopes }
  write : ∀ s piece, R s { s with channel := (setting.write s.channel piece).2 }
  report : ∀ site ∈ sites, ∀ s x scopes c, scopes.map Scope.name = site.counters →
    site.block.CanReport setting.iterationCap x scopes c → R s (s.report site.block.id c)

namespace Kept

variable {sites sites' : List Site} {R : RunState ω → RunState ω → Prop}

/-- What is kept at all sites is kept at fewer. -/
lemma mono (h : Kept setting sites R) (hsub : sites' ⊆ sites) : Kept setting sites' R :=
  { h with report := fun site hsite => h.report site (hsub hsite) }

/-- A report adds one diagnostic. -/
lemma forall_diagnostics_report {P : Diagnostic → Prop} {id : BlockId} {c : Complaint}
    (hc : P ⟨id, c⟩) (s : RunState ω) : ∀ d ∈ (s.report id c).diagnostics,
      d ∈ s.diagnostics ∨ P d := by
  intro d hd
  rw [RunState.diagnostics_report, Array.mem_push] at hd
  rcases hd with hd | rfl
  · exact .inl hd
  · exact .inr hc

/-- If all that can be reported at the sites has a property, then so has every diagnostic that is
new. -/
lemma of_forall_canReport {P : Diagnostic → Prop}
    (h : ∀ site ∈ sites, ∀ x scopes c, scopes.map Scope.name = site.counters →
      site.block.CanReport setting.iterationCap x scopes c → P ⟨site.block.id, c⟩) :
    Kept setting sites fun s t => ∀ d ∈ t.diagnostics, d ∈ s.diagnostics ∨ P d where
  refl _ _ hd := .inl hd
  trans := by
    intro s t u hst htu d hd
    rcases htu d hd with ht | hp
    · exact hst d ht
    · exact .inr hp
  check _ _ hd := .inl hd
  rescope _ _ _ hd := .inl hd
  write _ _ _ hd := .inl hd
  report site hsite s x scopes c hs hc :=
    forall_diagnostics_report (h site hsite x scopes c hs hc) s

/-- The relation is kept by what a print block writes. -/
lemma run_write (h : Kept setting sites R) {tag : Tag} {counters : List String} {inLoop : Bool}
    (hsite : ⟨.action tag .print, counters, inLoop⟩ ∈ sites) (pieces : List String)
    (s : RunState ω) (hs : s.scopes.map Scope.name = counters) :
    R s (s.write setting tag.id pieces) := by
  induction pieces generalizing s with
  | nil => exact h.refl s
  | cons piece pieces ih =>
    have hw := h.write s piece
    rcases hr : setting.write s.channel piece with ⟨_ | reason, channel⟩
    · simp only [RunState.write, hr]
      rw [hr] at hw
      exact h.trans hw (ih { s with channel } hs)
    · simp only [RunState.write, hr]
      rw [hr] at hw
      exact h.trans hw (h.report _ hsite _ 0 s.scopes _ hs .output)

/-- The relation is kept by an action. -/
lemma run_action (h : Kept setting sites R) {tag : Tag} {a : Action} {counters : List String}
    {inLoop : Bool} (hsite : ⟨.action tag a, counters, inLoop⟩ ∈ sites) (x : Float)
    (s : RunState ω) (hs : s.scopes.map Scope.name = counters) :
    R s (a.run setting tag.id x s).2 := by
  cases a with
  | statement code =>
    simp only [Action.run]
    split
    · exact h.refl s
    · rename_i error he
      exact h.report _ hsite s x s.scopes _ hs (.statement he)
  | print => exact h.run_write hsite _ s hs
  | leave => exact h.refl s
  | addCounter name =>
    simp only [Action.run]
    split
    · exact h.refl s
    · rename_i hn
      exact h.report _ hsite s x s.scopes _ hs (.counter hn)

/-- The relation is kept by a test. -/
lemma run_test (h : Kept setting sites R) {site : Site} (hsite : site ∈ sites)
    {condition : ConditionCode} (hc : site.block.condition? = some condition) (x : Float)
    (s : RunState ω) (hs : s.scopes.map Scope.name = site.counters) :
    R s (s.test site.block.id condition x).2 := by
  cases he : condition.eval x s.scopes with
  | ok v =>
    rw [RunState.test_of_ok s site.block.id he]
    exact h.refl s
  | error e =>
    rw [RunState.test_of_error s site.block.id he]
    exact h.report site hsite s x s.scopes _ hs (.condition hc he)

/-- A loop at a site keeps what its body keeps, as long as its body keeps the names of the
counters. -/
lemma run_loop (h : Kept setting sites R) {site : Site} (hsite : site ∈ sites)
    {kind : CompoundKind} (hkind : site.block.compoundKind? = some kind) (hne : kind ≠ .ifElse)
    {condition : ConditionCode} (hc : site.block.condition? = some condition)
    {body : Float → RunState ω → Ending × RunState ω}
    (hbody : ∀ x s, s.scopes.map Scope.name = site.counters →
      (body x s).2.scopes.map Scope.name = site.counters ∧ R s (body x s).2)
    (x : Float) (s : RunState ω) (hs : s.scopes.map Scope.name = site.counters) :
    R s (loop setting kind site.block.id condition body x s).2 := by
  -- The names of the counters are an invariant, and across a pass the relation may rest on them.
  refine (repeatWhile_rel (R := fun s t => s.scopes.map Scope.name = site.counters →
    t.scopes.map Scope.name = site.counters ∧ R s t) ?_ ?_ ?_ hbody ?_ _ x s hs).2
  · intro s t u hst htu hs
    obtain ⟨ht, hR⟩ := hst hs
    obtain ⟨hu, hR'⟩ := htu ht
    exact ⟨hu, h.trans hR hR'⟩
  · exact fun s hs => ⟨hs, h.check s⟩
  · intro x s hs
    rw [RunState.scopes_test]
    exact ⟨hs, h.run_test hsite hc x s hs⟩
  · exact fun s hs => ⟨hs, h.report site hsite s x s.scopes _ hs (.cap hkind hne)⟩

end Kept

variable {R : RunState ω → RunState ω → Prop}

mutual

/-- What all sites of a block keep, a run of the block keeps. -/
theorem Block.kept_run {counters : List String} {inLoop : Bool} (b : Block)
    (h : Kept setting (b.sites counters inLoop) R) (x : Float) (s : RunState ω)
    (hs : s.scopes.map Scope.name = counters) : R s (b.run setting x s).2 := by
  cases b with
  | action tag a =>
    rw [sites] at h
    exact h.run_action List.mem_cons_self x s hs
  | forLoop tag headers body =>
    rw [sites] at h
    rcases forLoop_complete_or_missing tag headers body with ⟨init, condition, step, rfl⟩ | hm
    · have hin := h.mono (List.subset_cons_self _ _)
      -- Inside the loop its own counter is innermost, and a pass keeps it so.
      have hpass : ∀ x t, t.scopes.map Scope.name = init.counter :: counters →
          (forPass setting step body x t).2.scopes.map Scope.name = init.counter :: counters ∧
            R t (forPass setting step body x t).2 := by
        intro x t ht
        have hb := Block.kept_runAll body hin x t ht
        have hn : (runAll setting body x t).2.scopes = t.scopes := Block.scopes_runAll body x t
        simp only [forPass]
        rcases hr : runAll setting body x t with ⟨ending, u⟩
        rw [hr] at hb hn
        cases ending with
        | value y =>
          rw [RunState.scopes_advance, Scopes.names_advance, hn]
          exact ⟨ht, h.trans hb (h.rescope u _)⟩
        | leave y => exact ⟨by rw [hn]; exact ht, hb⟩
        | interrupted why => exact ⟨by rw [hn]; exact ht, hb⟩
      have hloop : R (s.pushScope init) (loop setting .forLoop tag.id condition
          (forPass setting step body) x (s.pushScope init)).2 :=
        h.run_loop List.mem_cons_self rfl (by decide) rfl hpass x _ (by simp [hs])
      rw [run_forLoop]
      exact h.trans (h.rescope s _) (h.trans hloop (h.rescope _ _))
    · rw [run_forLoop_of_missing hm]
      refine h.report _ List.mem_cons_self s x ?_ _ ?_ (.missing rfl hm)
      · exact (headers.init.map fun init => ⟨init.counter, init.value⟩).toList ++ s.scopes
      · cases headers.init with
        | none => exact hs
        | some init => simp [hs]
  | whileLoop tag condition body =>
    rw [sites] at h
    cases condition with
    | none =>
      exact h.report _ List.mem_cons_self s x s.scopes _ hs (.missing rfl (List.cons_ne_nil _ _))
    | some condition =>
      have hin := h.mono (List.subset_cons_self _ _)
      refine h.run_loop List.mem_cons_self rfl (by decide) rfl ?_ x s hs
      intro x t ht
      rw [Block.scopes_runAll]
      exact ⟨ht, Block.kept_runAll body hin x t ht⟩
  | ifElse tag condition ifPart elsePart =>
    rw [sites] at h
    cases condition with
    | none =>
      exact h.report _ List.mem_cons_self s x s.scopes _ hs (.missing rfl (List.cons_ne_nil _ _))
    | some condition =>
      have hif := h.mono (List.subset_cons_of_subset _ (List.subset_append_left _ _))
      have helse := h.mono (List.subset_cons_of_subset _ (List.subset_append_right _ _))
      have htest : R s (s.test tag.id condition x).2 :=
        h.run_test List.mem_cons_self rfl x s hs
      have ht := s.scopes_test tag.id condition x
      rw [run_ifElse]
      rcases hr : s.test tag.id condition x with ⟨holds, t⟩
      rw [hr] at htest ht
      rw [← ht] at hs
      cases holds
      · exact h.trans htest (Block.kept_runAll elsePart helse x t hs)
      · exact h.trans htest (Block.kept_runAll ifPart hif x t hs)

/-- The relation is kept by a run of a list. -/
theorem Block.kept_runAll {counters : List String} {inLoop : Bool} (bs : List Block)
    (h : Kept setting (Block.sitesOf counters inLoop bs) R) (x : Float) (s : RunState ω)
    (hs : s.scopes.map Scope.name = counters) : R s (Block.runAll setting bs x s).2 := by
  cases bs with
  | nil => exact h.refl s
  | cons b bs =>
    rw [sitesOf] at h
    have hb := Block.kept_run b (h.mono (List.subset_append_left _ _)) x s hs
    have hn : (b.run setting x s).2.scopes = s.scopes := b.scopes_run x s
    rcases hr : b.run setting x s with ⟨ending, t⟩
    rw [hr] at hb hn
    rw [← hn] at hs
    cases ending with
    | value y =>
      rw [runAll_cons_of_value hr]
      exact h.trans hb
        (Block.kept_runAll bs (h.mono (List.subset_append_right _ _)) y t hs)
    | leave y => rw [runAll_cons_of_leave hr]; exact hb
    | interrupted why => rw [runAll_cons_of_interrupted hr]; exact hb

end

/-- What all sites of the blocks in slots keep, and what the program itself can report of these
blocks keeps, a run of the slots keeps. -/
theorem Program.kept_runSlots {bs : List Block}
    (h : Kept setting (Block.sitesOf [] false bs) R)
    (hleave : ∀ b ∈ bs, b.canLeave = true → ∀ s, R s (s.report b.id .leaveOutsideLoop))
    (hint : ∀ b ∈ bs, ∀ x s why, (b.run setting x s).1 = .interrupted why →
      ∀ t, R t (t.report b.id (.interrupted why)))
    (x : Float) (s : RunState ω) (hs : s.scopes = []) : R s (runSlots setting bs x s).state := by
  induction bs generalizing x s with
  | nil => exact h.refl s
  | cons b bs ih =>
    have hb : R s (b.run setting x s).2 :=
      b.kept_run (h.mono (List.subset_append_left _ _)) x s (by rw [hs]; rfl)
    have hn : (b.run setting x s).2.scopes = s.scopes := b.scopes_run x s
    have ih := ih (h.mono (List.subset_append_right _ _))
      (fun c hc => hleave c (List.mem_cons_of_mem b hc))
      (fun c hc => hint c (List.mem_cons_of_mem b hc))
    rcases hr : b.run setting x s with ⟨ending, t⟩
    rw [hr] at hb hn
    simp only at hn
    rw [← hn] at hs
    simp only [runSlots, hr]
    cases ending with
    | value y => exact h.trans hb (ih y t hs)
    -- The program itself reports a break that no loop has caught, and goes on.
    | leave y =>
      have hl : (b.run setting x s).1 = .leave y := by rw [hr]
      have hrep := hleave b List.mem_cons_self (b.leave_run hl).1 t
      exact h.trans hb (h.trans hrep (ih x _ hs))
    | interrupted why => exact h.trans hb (hint b List.mem_cons_self x s why (by rw [hr]) t)

/-- If all that can be reported in a run of slots has a property, then so has every diagnostic. -/
theorem Program.forall_diagnostics_runSlots {P : Diagnostic → Prop} {bs : List Block}
    (hreport : ∀ site ∈ Block.sitesOf [] false bs, ∀ x scopes c,
      scopes.map Scope.name = site.counters →
        site.block.CanReport setting.iterationCap x scopes c → P ⟨site.block.id, c⟩)
    (hleave : ∀ b ∈ bs, b.canLeave = true → P ⟨b.id, .leaveOutsideLoop⟩)
    (hint : ∀ b ∈ bs, ∀ x s why, (b.run setting x s).1 = .interrupted why →
      P ⟨b.id, .interrupted why⟩)
    (x : Float) (channel : ω) :
    ∀ d ∈ (runSlots setting bs x { channel }).diagnostics, P d := by
  intro d hd
  have hnew := kept_runSlots (Kept.of_forall_canReport hreport)
    (fun b hb hl => Kept.forall_diagnostics_report (hleave b hb hl))
    (fun b hb y t why hw => Kept.forall_diagnostics_report (hint b hb y t why hw))
    x { channel } rfl d (Array.mem_toList_iff.mp hd)
  rcases hnew with hempty | hp
  · exact absurd hempty (Array.not_mem_empty d)
  · exact hp

end BlockLang
