import BlockLang.Proofs.Run.Course
import BlockLang.Run.Buffer
import Mathlib.Algebra.Group.Nat.Defs

/-!
# How often loops repeat

Every run of a program comes to an end. A loop makes the passes that its condition asks for as long
as they are no more than the cap, and is reported once if it would go on there. So a block inside
`d` loops is evaluated at most `cap ^ d` times while the block in the slot around it is evaluated
once.
-/

namespace BlockLang

variable {ω : Type} {setting : Setting ω}

/-! ## What the log says of the diagnostics -/

namespace RunState.Reports

variable {s t u : RunState ω} {ds es : List Diagnostic}

lemma refl (s : RunState ω) : s.Reports s [] := (List.append_nil _).symm

/-- Reports follow on each other. -/
lemma trans (hst : s.Reports t ds) (htu : t.Reports u es) : s.Reports u (ds ++ es) := by
  rw [Reports] at *
  rw [htu, hst, List.append_assoc]

/-- A report adds itself. -/
lemma report (s : RunState ω) (id : BlockId) (c : Complaint) :
    s.Reports (s.report id c) [⟨id, c⟩] := by
  rw [Reports, diagnostics_report, Array.toList_push]

/-- What does not touch the diagnostics does not matter. -/
lemma of_eq (h : s.Reports t ds) (hu : u.diagnostics = t.diagnostics) : s.Reports u ds := by
  rw [Reports, hu, h]

end RunState.Reports

/-- To move a counter on reports nothing. -/
lemma LoopHead.diagnostics_advance (head : LoopHead) (s : RunState ω) :
    (head.advance s).diagnostics = s.diagnostics := by
  rw [advance]
  cases head.step <;> rfl

/-- The log of an evaluation holds the diagnostics of the run, in order. -/
theorem Evaluates.reports {task : Task} {x : Float} {s : RunState ω} {log : Log}
    {r : Ending × RunState ω} (h : Evaluates setting task x s log r) :
    s.Reports r.2 log.diagnostics := by
  induction h with
  | action hr => simpa [Happening.diagnostic?] using hr
  | @missing b kind x s => simpa [Happening.diagnostic?] using .report s b.id _
  | forLoop _ ih => exact ih
  | whileLoop _ ih => simpa [Happening.diagnostic?] using ih
  | ifElse _ hd _ ih => simpa [Happening.diagnostic?] using hd.trans ih
  | nil => exact .refl _
  | next _ _ ihb ih => simpa using ihb.trans ih
  | stop _ _ ih => simpa using ih
  | interrupted => exact .refl _
  | finish _ _ hd => simpa using hd
  | capped _ _ hd => simpa using hd.trans (.report _ _ _)
  | @pass head _ _ _ _ _ _ _ _ u _ _ _ _ hd _ _ _ ihb ih =>
    have hu := (ihb.of_eq (head.diagnostics_advance u)).trans ih
    simpa [Happening.diagnostic?] using hd.trans hu
  | leave _ _ hd _ _ ihb => simpa [Happening.diagnostic?] using hd.trans ihb
  | stopped _ _ hd _ _ ihb => simpa [Happening.diagnostic?] using hd.trans ihb

/-! ## One execution of a loop -/

/-- Nothing that happens in a list happens at the block that holds it. -/
lemma Evaluates.own_blocks {part : Block.Part} {index : Nat} {bs : List Block} {x : Float}
    {s : RunState ω} {log : Log} {r : Ending × RunState ω}
    (h : Evaluates setting (.blocks part index bs) x s log r) : log.own = [] := by
  generalize htask : Task.blocks part index bs = task at h
  induction h generalizing index bs with
  | nil => rfl
  | next _ _ _ ih =>
    cases htask
    rw [Log.own_append, Log.own_inside, ih rfl]
    rfl
  | stop => exact Log.own_inside _ _ _
  | _ => cases htask

/-- What the log says of a loop that has begun `counter` passes and can begin `room` more up to the
cap, where `complaint` is made if it would go on. -/
structure Log.WithinRoom (log : Log) (counter room : Nat) (complaint : Diagnostic)
    (ending : Ending) : Prop where
  passes_le : log.passes.length ≤ room
  tests_le : log.tests.length ≤ room + 1
  /-- The loop counts its passes one by one, so its counter never goes round. -/
  counted : log.passes.map UInt64.toNat = List.range' (counter + 1) log.passes.length
  /-- There is one report of the cap if the test behind the last pass that fits in holds. -/
  caps_eq : log.caps = if log.tests[room]? = some true then [complaint] else []
  /-- Unless a break or an interruption ends it, the loop makes a pass for each test that holds up
  to the first that does not, as far as they fit in. -/
  passes_eq : (∀ why, ending ≠ .interrupted why) → .left ∉ log.own →
    log.passes.length = min room (log.tests.findIdx (! ·))

namespace Log

/-- The first pass of a loop, and what is left of the loop, stay within the room if what is left
stays within one less. -/
lemma WithinRoom.cons {log more : Log} {counter room : Nat} {complaint : Diagnostic}
    {ending : Ending} {number : UInt64} (h : more.WithinRoom (counter + 1) room complaint ending)
    (htests : log.tests = true :: more.tests) (hpasses : log.passes = number :: more.passes)
    (hcaps : log.caps = more.caps) (hleft : .left ∈ more.own → .left ∈ log.own)
    (hnumber : number.toNat = counter + 1) :
    log.WithinRoom counter (room + 1) complaint ending where
  passes_le := by
    have := h.passes_le
    rw [hpasses, List.length_cons]
    omega
  tests_le := by
    have := h.tests_le
    rw [htests, List.length_cons]
    omega
  counted := by
    rw [hpasses, List.map_cons, List.length_cons, List.range'_succ, h.counted, hnumber]
  caps_eq := by
    rw [hcaps, htests, List.getElem?_cons_succ]
    exact h.caps_eq
  passes_eq hr hl := by
    have hmore := h.passes_eq hr fun hm => hl (hleft hm)
    rw [hpasses, htests, List.length_cons, hmore, List.findIdx_cons]
    simp only [Bool.not_true, cond_false]
    omega

/-- A loop that does not come to its next pass. -/
lemma WithinRoom.of_false {log : Log} (htests : log.tests = [false]) (hpasses : log.passes = [])
    (hcaps : log.caps = []) (counter room : Nat) (complaint : Diagnostic) (ending : Ending) :
    log.WithinRoom counter room complaint ending := by
  refine ⟨?_, ?_, ?_, ?_, ?_⟩
  · rw [hpasses]; exact Nat.zero_le _
  · rw [htests]; exact Nat.le_add_left 1 room
  · rw [hpasses]; rfl
  · have hno : [false][room]? ≠ some true := by cases room <;> simp
    rw [hcaps, htests, if_neg hno]
  · rw [hpasses, htests]; simp

/-- A loop that ends in its next pass. -/
lemma WithinRoom.of_ended {log : Log} {counter : Nat} {number : UInt64} {ending : Ending}
    (htests : log.tests = [true]) (hpasses : log.passes = [number]) (hcaps : log.caps = [])
    (hnumber : number.toNat = counter + 1)
    (hend : (∃ why, ending = .interrupted why) ∨ .left ∈ log.own) (room : Nat)
    (complaint : Diagnostic) : log.WithinRoom counter (room + 1) complaint ending := by
  refine ⟨?_, ?_, ?_, ?_, ?_⟩
  · rw [hpasses]; exact Nat.le_add_left 1 room
  · rw [htests]; exact Nat.le_add_left 1 (room + 1)
  · rw [hpasses, List.map_singleton, hnumber]; rfl
  · rw [hcaps, htests]; rfl
  · intro hne hleft
    rcases hend with ⟨why, hwhy⟩ | hl
    · exact absurd hwhy (hne why)
    · exact absurd hl hleft

end Log

/-- A look at a condition reports no cap. -/
lemma caps_test {id : BlockId} {code : ConditionCode} {x : Float} {s t : RunState ω}
    {holds : Bool} {ds : List Diagnostic} (ht : s.test id code x = (holds, t))
    (hd : s.Reports t ds) : (Log.test ds holds).caps = [] := by
  cases he : code.eval x s.scopes with
  | ok v =>
    rw [RunState.test_of_ok s id he] at ht
    cases ht
    rw [List.self_eq_append_right.mp hd]
    rfl
  | error e =>
    rw [RunState.test_of_error s id he] at ht
    cases ht
    have hds : [⟨id, .expression e code.text⟩] = ds :=
      List.append_cancel_left ((RunState.Reports.report s id _).symm.trans hd)
    rw [← hds]
    rfl

/-- A loop that has not gone past the cap stays within what room there is left. -/
theorem Evaluates.withinRoom {head : LoopHead} {body : List Block} {counter : UInt64} {x : Float}
    {s : RunState ω} {log : Log} {r : Ending × RunState ω}
    (h : Evaluates setting (.loop head body counter) x s log r)
    (hcounter : counter ≤ setting.iterationCap) :
    log.WithinRoom counter.toNat (setting.iterationCap.toNat - counter.toNat)
      ⟨head.id, head.atCap setting⟩ r.1 := by
  generalize htask : Task.loop head body counter = task at h
  induction h generalizing counter with
  | interrupted =>
    exact ⟨Nat.zero_le _, Nat.zero_le _, rfl, rfl, fun hne _ => absurd rfl (hne _)⟩
  | finish _ ht hd =>
    exact .of_false (Log.tests_test _ _) (Log.passes_test _ _) (caps_test ht hd) _ _ _ _
  | @capped head _ counter _ _ _ ds _ ht hd hcap =>
    cases htask
    have hroom : setting.iterationCap.toNat - counter.toNat = 0 :=
      Nat.sub_eq_zero_of_le (UInt64.le_iff_toNat_le.mp hcap)
    have hcaps := caps_test ht hd
    -- No room is left, so the test that has just held is the one behind the last pass.
    rw [hroom]
    refine ⟨by simp, by simp, by simp, ?_, by simp⟩
    rw [Log.caps_append, hcaps, Log.tests_append, Log.tests_test, Log.tests_reports]
    rfl
  | @pass head body counter _ _ _ _ _ _ _ more _ _ ht hd hlt hb _ _ ih =>
    cases htask
    obtain ⟨hnext, hroom⟩ := sub_toNat_of_lt hlt
    have hown := hb.own_blocks
    have hle : counter + 1 ≤ setting.iterationCap := by
      rw [UInt64.le_iff_toNat_le, hnext]
      exact UInt64.lt_iff_toNat_lt.mp hlt
    -- The rest of the loop has one pass less to go, and its first pass has the next number.
    have hmore := ih hle rfl
    rw [hnext] at hmore
    rw [hroom, hnext]
    refine hmore.cons ?_ ?_ ?_ ?_ hnext
    · simp [Log.tests_of_own hown, Happening.test?]
    · simp [Log.passes_of_own hown, Happening.pass?]
    · simp [Log.caps_of_own hown, caps_test ht hd, Happening.cap?]
    · simp [hown]
  | leave _ ht hd hlt hb =>
    cases htask
    obtain ⟨hnext, hroom⟩ := sub_toNat_of_lt hlt
    have hown := hb.own_blocks
    rw [hroom]
    refine .of_ended ?_ ?_ ?_ hnext (.inr ?_) _ _
    · simp [Log.tests_of_own hown, Happening.test?]
    · simp [Log.passes_of_own hown, Happening.pass?]
    · simp [Log.caps_of_own hown, caps_test ht hd, Happening.cap?]
    · simp [hown]
  | stopped _ ht hd hlt hb =>
    cases htask
    obtain ⟨hnext, hroom⟩ := sub_toNat_of_lt hlt
    have hown := hb.own_blocks
    rw [hroom]
    refine .of_ended ?_ ?_ ?_ hnext (.inl ⟨_, rfl⟩) _ _
    · simp [Log.tests_of_own hown, Happening.test?]
    · simp [Log.passes_of_own hown, Happening.pass?]
    · simp [Log.caps_of_own hown, caps_test ht hd, Happening.cap?]
  | _ => cases htask

/-! ## How often a block is evaluated -/

/-- How many loops there are around the block at the end of the path. Only loops have a body. -/
def loopsAround (path : Path) : Nat := path.countP (·.1 = .body)

/-- One more loop is around a block for each body on the way to it. -/
@[simp] lemma loopsAround_cons (part : Block.Part) (index : Nat) (path : Path) :
    loopsAround ((part, index) :: path) = loopsAround path + (if part = .body then 1 else 0) := by
  simp [loopsAround, List.countP_cons]

/-- How often the block at the end of the path can be evaluated in a task, when no loop makes more
than `cap` passes. The path of a block in a list begins with its place in the list. -/
def Task.limit (cap : Nat) : Task → Path → Nat
  | block _, path => cap ^ loopsAround path
  | blocks part index _, (part', index') :: path =>
    if part' = part ∧ index ≤ index' then cap ^ loopsAround path else 0
  | loop _ _ counter, (part, _) :: path =>
    if part = .body then (cap - counter.toNat) * cap ^ loopsAround path else 0
  | _, [] => 0

/-- A block begins once, so what happens inside it decides. -/
lemma Log.evaluations_begun_le {log : Log} {cap : Nat} (hself : log.evaluations [] = 0)
    (hinside : ∀ part index path, log.evaluations ((part, index) :: path) ≤
      cap ^ loopsAround ((part, index) :: path)) (path : Path) :
    Log.evaluations (⟨[], .begun⟩ :: log) path ≤ cap ^ loopsAround path := by
  cases path with
  | nil =>
    show Log.evaluations (⟨[], .begun⟩ :: log) [] ≤ 1
    rw [evaluations_cons, hself]
    exact Nat.le_refl 1
  | cons step path =>
    rw [evaluations_cons, if_neg (by simp), Nat.zero_add]
    exact hinside _ _ _

/-- All passes of a loop together. -/
lemma Task.limit_loop_zero (cap : Nat) (head : LoopHead) (body : List Block) (part : Block.Part)
    (index : Nat) (path : Path) :
    (Task.loop head body 0).limit cap ((part, index) :: path) ≤
      cap ^ loopsAround ((part, index) :: path) := by
  by_cases hpart : part = .body
  · simp only [limit, loopsAround_cons, if_pos hpart, UInt64.toNat_zero, Nat.sub_zero]
    exact Nat.le_of_eq (by rw [Nat.pow_succ, Nat.mul_comm])
  · simp only [limit, if_neg hpart, Nat.zero_le]

/-- One pass of a loop and those after it. -/
lemma Task.limit_loop_of_lt {cap counter : UInt64} (hlt : counter < cap) (head : LoopHead)
    (body : List Block) (path : Path) :
    (Task.blocks .body 0 body).limit cap.toNat path +
        (Task.loop head body (counter + 1)).limit cap.toNat path =
      (Task.loop head body counter).limit cap.toNat path := by
  have hroom := (sub_toNat_of_lt hlt).2
  cases path with
  | nil => rfl
  | cons step path =>
    obtain ⟨part, index⟩ := step
    by_cases hpart : part = .body
    · simp only [limit, hpart, Nat.zero_le, and_self, if_true, hroom]
      rw [Nat.succ_mul, Nat.add_comm]
    · simp only [limit, hpart, false_and, if_false, Nat.add_zero]

/-- The first block of a list and those after it. -/
lemma Task.limit_blocks_cons (cap : Nat) (part : Block.Part) (index : Nat) (b : Block)
    (bs : List Block) {log : Log} (hlog : ∀ path, log.evaluations path ≤ cap ^ loopsAround path)
    (path : Path) :
    (log.inside part index).evaluations path + (blocks part (index + 1) bs).limit cap path ≤
      (blocks part index (b :: bs)).limit cap path := by
  cases path with
  | nil => exact Nat.le_of_eq (Log.evaluations_inside_nil part index log)
  | cons step path =>
    obtain ⟨part', index'⟩ := step
    have hpath := hlog path
    simp only [Log.evaluations_inside_cons, limit]
    by_cases hpart : part' = part
    · subst hpart
      rcases Nat.lt_trichotomy index index' with hlt | rfl | hgt
      · refine Nat.le_of_eq ?_
        rw [if_neg (by omega), if_pos ⟨rfl, hlt⟩, if_pos ⟨rfl, by omega⟩, Nat.zero_add]
      · rw [if_pos ⟨rfl, rfl⟩, if_neg (by omega), if_pos ⟨rfl, Nat.le_refl _⟩]
        exact hpath
      · rw [if_neg (by omega), if_neg (by omega)]
        exact Nat.zero_le _
    · rw [if_neg (fun h => hpart h.1.symm), if_neg (fun h => hpart h.1)]
      exact Nat.zero_le _

/-- In an evaluation no block is evaluated more often than the loops around it allow. -/
theorem Evaluates.evaluations_le {task : Task} {x : Float} {s : RunState ω} {log : Log}
    {r : Ending × RunState ω} (h : Evaluates setting task x s log r) (path : Path) :
    log.evaluations path ≤ task.limit setting.iterationCap.toNat path := by
  induction h generalizing path with
  | action => exact Log.evaluations_begun_le (by simp) (by simp) path
  | missing => exact Log.evaluations_begun_le (by simp) (by simp) path
  | forLoop _ ih =>
    refine Log.evaluations_begun_le (Nat.le_zero.mp (ih [])) ?_ path
    exact fun part index path => Nat.le_trans (ih _) (Task.limit_loop_zero _ _ _ part index path)
  | whileLoop _ ih =>
    refine Log.evaluations_begun_le (Nat.le_zero.mp (ih [])) ?_ path
    exact fun part index path => Nat.le_trans (ih _) (Task.limit_loop_zero _ _ _ part index path)
  -- Only one part is evaluated; nothing in the other one counts.
  | @ifElse tag condition ifPart elsePart x s holds t ds log r _ _ _ ih =>
    refine Log.evaluations_begun_le ?_ ?_ path
    · rw [Log.evaluations_append, Log.evaluations_test, Nat.le_zero.mp (ih [])]
    · intro part index path
      have hinside := ih ((part, index) :: path)
      have hpart : (if holds = true then Block.Part.ifPart else .elsePart) ≠ .body := by
        cases holds <;> decide
      rw [Log.evaluations_append, Log.evaluations_test, Nat.zero_add]
      refine Nat.le_trans hinside ?_
      by_cases h : part = if holds = true then .ifPart else .elsePart
      · rw [Task.limit, if_pos ⟨h, Nat.zero_le _⟩, loopsAround_cons, if_neg (h ▸ hpart)]
        exact Nat.le_refl _
      · rw [Task.limit, if_neg fun hand => h hand.1]
        exact Nat.zero_le _
  | nil => simp
  | @next part index b bs _ _ _ _ _ _ _ _ _ ihb ih =>
    rw [Log.evaluations_append]
    have hfirst := Task.limit_blocks_cons setting.iterationCap.toNat part index b bs ihb path
    have hmore := ih path
    omega
  | @stop part index b bs _ _ _ _ _ _ ih =>
    have hfirst := Task.limit_blocks_cons setting.iterationCap.toNat part index b bs ih path
    omega
  | interrupted => simp
  | finish => simp
  | capped => simp
  -- One pass takes one from the passes that are left, and the bound of the body with it.
  | @pass head body counter _ _ _ _ _ _ _ _ _ _ _ _ hlt _ _ ihb ih =>
    have hlimit := Task.limit_loop_of_lt hlt head body path
    have hbody := ihb path
    have hmore := ih path
    simp only [Log.evaluations_append, Log.evaluations_cons, Log.evaluations_test,
      Happening.isBegun, Bool.false_eq_true, and_false, if_false]
    omega
  | @leave head body counter _ _ _ _ _ _ _ _ _ _ hlt _ ihb =>
    have hlimit := Task.limit_loop_of_lt hlt head body path
    have hbody := ihb path
    simp only [Log.evaluations_append, Log.evaluations_cons, Log.evaluations_test,
      Log.evaluations_nil, Happening.isBegun, Bool.false_eq_true, and_false, if_false]
    omega
  | @stopped head body counter _ _ _ _ _ _ _ _ _ _ hlt _ ihb =>
    have hlimit := Task.limit_loop_of_lt hlt head body path
    have hbody := ihb path
    simp only [Log.evaluations_append, Log.evaluations_cons, Log.evaluations_test,
      Happening.isBegun, Bool.false_eq_true, and_false, if_false]
    omega

/-- What holds of every log of a block holds of the logs of a program. -/
lemma EvaluatesSlots.evaluations_le {bs : List Block} {x : Float} {s : RunState ω}
    {logs : List Log} {o : Outcome ω} (h : EvaluatesSlots setting bs x s logs o) :
    ∀ log ∈ logs, ∀ path,
      log.evaluations path ≤ setting.iterationCap.toNat ^ loopsAround path := by
  induction h with
  | nil => simp
  | next hb _ ih => exact List.forall_mem_cons.mpr ⟨hb.evaluations_le, ih⟩
  | leave hb _ ih => exact List.forall_mem_cons.mpr ⟨hb.evaluations_le, ih⟩
  | interrupted hb => exact List.forall_mem_singleton.mpr hb.evaluations_le

/-- Every program has an evaluation, which ends as its run does, and in the evaluation of a block in
a slot a block inside `d` loops is evaluated at most `cap ^ d` times. Every execution of a loop has
an evaluation that ends as the loop does. It stays within the cap, it counts its passes without
going round, and it reports the cap once if the test behind the last pass holds and not
otherwise. -/
theorem Program.exists_evaluatesSlots_and_loop_withinRoom (setting : Setting ω) :
    (∀ (p : Program) (initial : Float) (channel : ω),
      (∃ logs, EvaluatesSlots setting p.blocks initial { channel } logs
        (p.run setting initial channel)) ∧
      ∀ logs o, EvaluatesSlots setting p.blocks initial { channel } logs o →
        o = p.run setting initial channel ∧
          ∀ log ∈ logs, ∀ path,
            log.evaluations path ≤ setting.iterationCap.toNat ^ loopsAround path) ∧
    ∀ (head : LoopHead) (body : List Block) (x : Float) (s : RunState ω),
      (∃ log r, Evaluates setting (.loop head body 0) x s log r) ∧
      ∀ log r, Evaluates setting (.loop head body 0) x s log r →
        r = loop setting head.kind head.id head.condition (head.pass setting body) x s ∧
          s.Reports r.2 log.diagnostics ∧
          log.WithinRoom 0 setting.iterationCap.toNat
            ⟨head.id, .iterationCap head.kind setting.iterationCap⟩ r.1 := by
  refine ⟨fun p initial channel => ⟨?_, ?_⟩, fun head body x s => ⟨?_, ?_⟩⟩
  · exact exists_evaluatesSlots p.blocks initial { channel }
  · intro logs o h
    exact ⟨h.eq_runSlots, h.evaluations_le⟩
  · obtain ⟨log, hlog⟩ := (Task.loop head body 0).exists_evaluates setting x s
    exact ⟨log, _, hlog⟩
  · intro log r h
    have hrun : r = head.run setting body 0 x s := h.eq_run
    have hzero : (0 : UInt64) ≤ setting.iterationCap := UInt64.zero_le
    exact ⟨hrun.trans (head.run_zero body x s), h.reports, h.withinRoom hzero⟩

/-- A loop that would never end. -/
def endless : LoopHead := ⟨.whileLoop, ⟨1⟩, .ofText "true", none⟩

/-- A program with such a loop inside another. -/
def endlessTwice : Program where
  slots := [some (.whileLoop ⟨⟨1⟩, false, 0⟩ (some (.ofText "true"))
    [.whileLoop ⟨⟨2⟩, false, 0⟩ (some (.ofText "true")) [.action ⟨⟨3⟩, false, 0⟩ .print]])]

/-- A loop without end has as many passes as the cap allows, and reports the cap once. -/
theorem endless_withinRoom :
    let setting := ({ iterationCap := 2 } : Limits).setting .still none none
    (∃ logs o, EvaluatesSlots setting endlessTwice.blocks 0 { channel := {} } logs o ∧
      o.channel.lines = 2 ^ 2 ∧
      ∀ log ∈ logs, ∀ path, log.evaluations path ≤ 2 ^ loopsAround path) ∧
    ∃ log r, Evaluates setting (.loop endless [] 0) 0 { channel := {} } log r ∧
      r.2.diagnostics.size = 1 ∧
      log.WithinRoom 0 2 ⟨⟨1⟩, .iterationCap .whileLoop 2⟩ r.1 := by
  intro setting
  obtain ⟨hprogram, hloop⟩ := Program.exists_evaluatesSlots_and_loop_withinRoom setting
  constructor
  · obtain ⟨⟨logs, hlogs⟩, hall⟩ := hprogram endlessTwice 0 {}
    have hlines : (endlessTwice.run setting 0 {}).channel.lines = 2 ^ 2 := by decide +kernel
    exact ⟨logs, _, hlogs, hlines, (hall logs _ hlogs).2⟩
  · obtain ⟨⟨log, r, hlog⟩, hall⟩ := hloop endless [] 0 { channel := {} }
    obtain ⟨hr, -, hroom⟩ := hall log r hlog
    have hsize : (loop setting endless.kind endless.id endless.condition
        (endless.pass setting []) 0 { channel := {} }).2.diagnostics.size = 1 := by
      decide +kernel
    exact ⟨log, r, hlog, hr ▸ hsize, hroom⟩

end BlockLang
