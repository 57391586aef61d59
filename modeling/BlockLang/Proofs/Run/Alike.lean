import BlockLang.Proofs.Program.Untagged
import BlockLang.Proofs.Run.Together
import BlockLang.Run.Buffer
import Mathlib.Data.List.Forall2

/-!
# Runs that do not look at tags

Two programs that are the same without tags and gaps are run side by side. The runs go through the
same states, apart from the ids in what they report. Main statement: they end alike, with the same
complaints about blocks at the same positions.
-/

namespace BlockLang

variable {ω : Type} {setting : Setting ω} {pairs : List (BlockId × BlockId)}

/-! ## States that are alike -/

/-- The diagnostics say the same of two blocks that are a pair. -/
def Diagnostic.Alike (pairs : List (BlockId × BlockId)) (d e : Diagnostic) : Prop :=
  e.complaint = d.complaint ∧ (d.block, e.block) ∈ pairs

/-- The states are the same, apart from the ids in their diagnostics. -/
structure RunState.Alike (pairs : List (BlockId × BlockId)) (s t : RunState ω) : Prop where
  channel : t.channel = s.channel
  scopes : t.scopes = s.scopes
  checks : t.checks = s.checks
  diagnostics : List.Forall₂ (Diagnostic.Alike pairs) s.diagnostics.toList t.diagnostics.toList

namespace RunState.Alike

variable {s t : RunState ω}

/-- Reports of corresponding blocks keep states alike. -/
lemma report (h : s.Alike pairs t) {id id' : BlockId} (hid : (id, id') ∈ pairs)
    (c : Complaint) : (s.report id c).Alike pairs (t.report id' c) where
  channel := h.channel
  scopes := h.scopes
  checks := h.checks
  diagnostics := by
    rw [diagnostics_report, diagnostics_report, Array.toList_push, Array.toList_push]
    exact List.rel_append h.diagnostics (.cons ⟨rfl, hid⟩ .nil)

/-- What is written for corresponding blocks keeps states alike, also where the output refuses
it. -/
lemma write (h : s.Alike pairs t) {id id' : BlockId} (hid : (id, id') ∈ pairs)
    (pieces : List String) :
    (s.write setting id pieces).Alike pairs (t.write setting id' pieces) := by
  induction pieces generalizing s t with
  | nil => exact h
  | cons piece pieces ih =>
    rw [RunState.write, RunState.write, h.channel]
    rcases setting.write s.channel piece with ⟨reason, channel⟩
    have hwritten : Alike pairs { s with channel } { t with channel } :=
      ⟨rfl, h.scopes, h.checks, h.diagnostics⟩
    cases reason with
    | none => exact ih hwritten
    | some reason => exact hwritten.report hid _

end RunState.Alike

/-- Alike states are kept by runs that do the same with blocks whose ids are pairs. -/
lemma parallel_alike : Parallel setting setting (fun id id' => (id, id') ∈ pairs)
    (RunState.Alike pairs) where
  cap := rfl
  asked h := by rw [h.checks, h.channel]
  scopes h := h.scopes
  check h := ⟨h.channel, h.scopes, congrArg (· + 1) h.checks, h.diagnostics⟩
  rescope f h := ⟨h.channel, congrArg f h.scopes, h.checks, h.diagnostics⟩
  report _ hid h := h.report hid _

/-! ## Blocks -/

/-- Corresponding blocks without others inside run alike. -/
lemma Action.run_alike {s t : RunState ω} (h : s.Alike pairs t) {id id' : BlockId}
    (hid : (id, id') ∈ pairs) (x : Float) (a : Action) :
    Together (RunState.Alike pairs) (a.run setting id x s) (a.run setting id' x t) := by
  by_cases ha : a = .print
  · subst ha
    exact ⟨rfl, h.write hid _⟩
  · exact parallel_alike.action hid x h ha

mutual

/-- Blocks that are the same without tags run alike. -/
theorem Block.run_alike (b c : Block) (hc : c.untagged = b.untagged)
    (hids : ∀ q ∈ b.idPairs c, q ∈ pairs) (x : Float) {s t : RunState ω} (h : s.Alike pairs t) :
    Together (RunState.Alike pairs) (b.run setting x s) (c.run setting x t) := by
  cases b with
  | action tag a =>
    obtain ⟨tag', rfl⟩ := eq_action_of_untagged hc
    exact a.run_alike h (hids (tag.id, tag'.id) List.mem_cons_self) x
  | forLoop tag headers body =>
    obtain ⟨tag', body', rfl, hbody⟩ := eq_forLoop_of_untagged hc
    rw [idPairs_forLoop, List.forall_mem_cons] at hids
    obtain ⟨hid, hinside⟩ := hids
    exact parallel_alike.forLoop hid headers (Block.runAll_alike body body' hbody hinside) x h
  | whileLoop tag condition body =>
    obtain ⟨tag', body', rfl, hbody⟩ := eq_whileLoop_of_untagged hc
    rw [idPairs_whileLoop, List.forall_mem_cons] at hids
    obtain ⟨hid, hinside⟩ := hids
    exact parallel_alike.whileLoop hid condition (Block.runAll_alike body body' hbody hinside) x h
  | ifElse tag condition ifPart elsePart =>
    obtain ⟨tag', ifPart', elsePart', rfl, hif, helse⟩ := eq_ifElse_of_untagged hc
    rw [idPairs_ifElse hif, List.forall_mem_cons, List.forall_mem_append] at hids
    obtain ⟨hid, hinif, hinelse⟩ := hids
    exact parallel_alike.ifElse hid condition (Block.runAll_alike ifPart ifPart' hif hinif)
      (Block.runAll_alike elsePart elsePart' helse hinelse) x h

theorem Block.runAll_alike (bs cs : List Block)
    (hcs : Block.untaggedAll cs = Block.untaggedAll bs)
    (hids : ∀ q ∈ Block.idPairsOf bs cs, q ∈ pairs) (x : Float) {s t : RunState ω}
    (h : s.Alike pairs t) :
    Together (RunState.Alike pairs) (Block.runAll setting bs x s)
      (Block.runAll setting cs x t) := by
  cases bs with
  | nil =>
    obtain rfl := eq_nil_of_untaggedAll hcs
    exact ⟨rfl, h⟩
  | cons b bs =>
    obtain ⟨c, cs, rfl, hc, hcs⟩ := eq_cons_of_untaggedAll hcs
    rw [idPairsOf_cons hc, List.forall_mem_append] at hids
    exact runAll_together (Block.run_alike b c hc hids.1 x h)
      (Block.runAll_alike bs cs hcs hids.2)

end

/-! ## Programs -/

/-- The outcomes are the same, apart from the ids in their diagnostics. -/
abbrev Outcome.Alike (pairs : List (BlockId × BlockId)) (o o' : Outcome ω) : Prop :=
  o.Together (RunState.Alike pairs) o'

/-- Slots with blocks that are the same without tags run alike. -/
lemma Program.runSlots_alike (bs cs : List Block)
    (hcs : Block.untaggedAll cs = Block.untaggedAll bs)
    (hids : ∀ q ∈ Block.idPairsOf bs cs, q ∈ pairs) (x : Float) {s t : RunState ω}
    (h : s.Alike pairs t) :
    (runSlots setting bs x s).Alike pairs (runSlots setting cs x t) := by
  induction bs generalizing cs x s t with
  | nil =>
    obtain rfl := Block.eq_nil_of_untaggedAll hcs
    exact ⟨rfl, rfl, h⟩
  | cons b bs ih =>
    obtain ⟨c, cs, rfl, hc, hcs⟩ := Block.eq_cons_of_untaggedAll hcs
    rw [Block.idPairsOf_cons hc, List.forall_mem_append] at hids
    obtain ⟨hb, hbs⟩ := hids
    have hid : (b.id, c.id) ∈ pairs := hb _ (b.id_mem_idPairs c)
    exact runSlots_together parallel_alike hid (b.run_alike c hc hb x h)
      fun x {s t} h => ih cs hcs hbs x h

/-- The outcomes are the same, with complaints about blocks at the same positions of programs with
these ids. -/
structure Outcome.Matches (ids ids' : List BlockId) (o o' : Outcome ω) : Prop where
  value : o'.value = o.value
  channel : o'.channel = o.channel
  interrupted : o'.interrupted = o.interrupted
  diagnostics : List.Forall₂ (fun d d' => d'.complaint = d.complaint ∧
    ∃ k : Nat, ids[k]? = some d.block ∧ ids'[k]? = some d'.block) o.diagnostics o'.diagnostics
  /-- If no id occurs twice, the ids on the other side are new names for them. -/
  renamed : ids.Nodup → ∃ f : BlockId → BlockId, ids' = ids.map f ∧
    o'.diagnostics = o.diagnostics.map fun d => { d with block := f d.block }

/-- Ids of which none occurs twice can be renamed in any way. -/
lemma exists_renaming {ids ids' : List BlockId} (h : ids.Nodup) (hlen : ids.length = ids'.length) :
    ∃ f : BlockId → BlockId, ∀ k : Nat, ids'[k]? = ids[k]?.map f := by
  refine ⟨fun id => ids'[ids.idxOf id]?.getD id, fun k => ?_⟩
  by_cases hk : k < ids.length
  · have hk' : k < ids'.length := hlen ▸ hk
    have hidx : ids.idxOf ids[k] = k := h.idxOf_getElem k hk
    rw [List.getElem?_eq_getElem hk, List.getElem?_eq_getElem hk', Option.map_some, hidx,
      List.getElem?_eq_getElem hk', Option.getD_some]
  · have hk' : ¬ k < ids'.length := hlen ▸ hk
    rw [List.getElem?_eq_none (Nat.not_lt.mp hk), List.getElem?_eq_none (Nat.not_lt.mp hk')]
    rfl

/-- Outcomes that are alike for two lists of ids match place by place. -/
lemma Outcome.Alike.matches {ids ids' : List BlockId} {o o' : Outcome ω}
    (h : o.Alike (ids.zip ids') o') (hlen : ids.length = ids'.length) : o.Matches ids ids' o' := by
  have hpositions : List.Forall₂ (fun d d' => d'.complaint = d.complaint ∧
      ∃ k : Nat, ids[k]? = some d.block ∧ ids'[k]? = some d'.block)
      o.diagnostics o'.diagnostics := by
    refine h.state.diagnostics.imp fun d e hde => ⟨hde.1, ?_⟩
    obtain ⟨k, hk⟩ := List.mem_iff_getElem?.mp hde.2
    exact ⟨k, List.getElem?_zip_eq_some.mp hk⟩
  refine ⟨h.value, h.state.channel, h.interrupted, hpositions, fun hnodup => ?_⟩
  obtain ⟨f, hf⟩ := exists_renaming hnodup hlen
  refine ⟨f, List.ext_getElem? fun k => by rw [hf, List.getElem?_map], ?_⟩
  -- Both diagnostics are about the block at position `k`, where `f` renames the one to the other.
  rw [eq_comm, ← List.forall₂_eq_eq_eq, List.forall₂_map_left_iff]
  refine hpositions.imp fun d e hde => ?_
  obtain ⟨hcomplaint, k, hk, hk'⟩ := hde
  rw [hf, hk, Option.map_some, Option.some.injEq] at hk'
  obtain ⟨block, complaint⟩ := e
  simp only [hk', ← hcomplaint]

/-- With the same ids on both sides the outcomes are equal. -/
lemma Outcome.Alike.eq {ids : List BlockId} {o o' : Outcome ω} (h : o.Alike (ids.zip ids) o') :
    o' = o := by
  have hdiagnostics : o.state.diagnostics.toList = o'.state.diagnostics.toList := by
    rw [← List.forall₂_eq_eq_eq]
    refine h.state.diagnostics.imp fun d e hde => ?_
    obtain ⟨k, hk⟩ := List.mem_iff_getElem?.mp hde.2
    obtain ⟨hd, he⟩ : ids[k]? = some d.block ∧ ids[k]? = some e.block :=
      List.getElem?_zip_eq_some.mp hk
    have hblock : d.block = e.block := Option.some.inj (hd.symm.trans he)
    obtain ⟨block, complaint⟩ := d
    obtain ⟨block', complaint'⟩ := e
    exact congrArg₂ Diagnostic.mk hblock hde.1.symm
  have hsame : o.state.diagnostics = o'.state.diagnostics := Array.toList_inj.mp hdiagnostics
  obtain ⟨value, interrupted, channel, scopes, diagnostics, checks⟩ := o
  obtain ⟨value', interrupted', channel', scopes', diagnostics', checks'⟩ := o'
  obtain rfl : diagnostics = diagnostics' := hsame
  obtain ⟨rfl, rfl, rfl, rfl, rfl, -⟩ := h
  rfl

namespace Program

/-- Programs that are the same without tags run alike. -/
lemma run_alike {p q : Program} (h : q.untagged = p.untagged) (setting : Setting ω)
    (initial : Float) (channel : ω) :
    (p.run setting initial channel).Alike (p.ids.zip q.ids) (q.run setting initial channel) :=
  runSlots_alike p.blocks q.blocks h (fun _ => id) initial ⟨rfl, rfl, rfl, .nil⟩

/-- Programs that are the same without tags and gaps have runs that match. Removing gaps and raising
blocks change nothing in a run, and the run of a program that was saved and loaded matches the run
of the program. -/
theorem runs_match_of_untagged_eq (setting : Setting ω) (initial : Float) (channel : ω) :
    (∀ p q : Program, p.untagged = q.untagged →
      (p.run setting initial channel).Matches p.ids q.ids (q.run setting initial channel)) ∧
    (∀ p : Program, p.compact.run setting initial channel = p.run setting initial channel) ∧
    (∀ (p : Program) (id : BlockId),
      (p.moveToTop id).2.run setting initial channel = p.run setting initial channel) ∧
    ∀ (p : Program) (supply : Supply),
      (p.run setting initial channel).Matches p.ids (ofRecords p.records supply).1.ids
        ((ofRecords p.records supply).1.run setting initial channel) := by
  have hmatches : ∀ p q : Program, p.untagged = q.untagged →
      (p.run setting initial channel).Matches p.ids q.ids (q.run setting initial channel) :=
    fun p q h => (run_alike h.symm setting initial channel).matches (Block.length_idsOf_eq h.symm)
  refine ⟨hmatches, ?_, ?_, ?_⟩
  · intro p
    rw [run, blocks_compact, run]
  · intro p id
    obtain ⟨huntagged, hids⟩ := p.untagged_moveToTop id
    have halike := run_alike huntagged setting initial channel
    rw [hids] at halike
    exact halike.eq
  · intro p supply
    exact hmatches _ _ (p.untagged_ofRecords_records supply).symm

end Program

/-- A loop that prints and adds a counter that it does not have. -/
def misnamed : Program where
  slots := [
    some (.forLoop ⟨⟨1⟩, false, 0⟩ ⟨some ⟨"i", 0⟩, some (.ofText "i < 2"), some 1⟩
      [.action ⟨⟨2⟩, false, 0⟩ .print, .action ⟨⟨3⟩, false, 0⟩ (.addCounter "j")])]

/-- The same loop with other ids, locks and layers, between two gaps. -/
def misnamedRetagged : Program where
  slots := [
    none,
    some (.forLoop ⟨⟨7⟩, true, 4⟩ ⟨some ⟨"i", 0⟩, some (.ofText "i < 2"), some 1⟩
      [.action ⟨⟨9⟩, false, 2⟩ .print, .action ⟨⟨8⟩, true, 1⟩ (.addCounter "j")]),
    none]

/-- The complaints about the third block of the one are about the third block of the other. -/
theorem misnamed_runs_match :
    let setting := ({} : Limits).setting .still none none
    misnamed.untagged = misnamedRetagged.untagged ∧
      misnamed.ids = [⟨1⟩, ⟨2⟩, ⟨3⟩] ∧ misnamedRetagged.ids = [⟨7⟩, ⟨9⟩, ⟨8⟩] ∧
      (misnamed.run setting 0 {}).Matches misnamed.ids misnamedRetagged.ids
        (misnamedRetagged.run setting 0 {}) ∧
      (misnamed.run setting 0 {}).diagnostics.map Diagnostic.block = [⟨3⟩, ⟨3⟩] ∧
      (misnamedRetagged.run setting 0 {}).diagnostics.map Diagnostic.block = [⟨8⟩, ⟨8⟩] := by
  intro setting
  have hsame : misnamed.untagged = misnamedRetagged.untagged := rfl
  have hmatch := (Program.runs_match_of_untagged_eq setting 0 {}).1 misnamed misnamedRetagged hsame
  exact ⟨hsame, rfl, rfl, hmatch, by decide +kernel, by decide +kernel⟩

end BlockLang
