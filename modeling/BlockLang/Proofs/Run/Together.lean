import BlockLang.Proofs.Run.Steps

/-!
# Two runs side by side

Two runs, each in its own setting, go through states that are kept in a relation. Main statements:
if the relation is kept by what single steps do, then both runs take the same ways through loops,
compound blocks and lists, and the relation is kept there too.
-/

namespace BlockLang

variable {ω ω' : Type} {setting : Setting ω} {setting' : Setting ω'}
  {R : RunState ω → RunState ω' → Prop}

/-- Two steps have the same answer and lead to related states. -/
def Together {α : Type} (R : RunState ω → RunState ω' → Prop) (r : α × RunState ω)
    (r' : α × RunState ω') : Prop :=
  r'.1 = r.1 ∧ R r.2 r'.2

/-- Two outcomes that go together have the same result. -/
lemma Together.eq {α : Type} {r : α × RunState ω} {r' : α × RunState ω'} (h : Together R r r')
    {a : α} {s : RunState ω} (hr : r = (a, s)) : ∃ t, r' = (a, t) ∧ R s t := by
  subst hr
  exact ⟨r'.2, Prod.ext h.1 rfl, h.2⟩

/-- Two loops stay together if all their steps do. -/
lemma repeatWhile_together {test : Float → RunState ω → Bool × RunState ω}
    {test' : Float → RunState ω' → Bool × RunState ω'}
    {body : Float → RunState ω → Ending × RunState ω}
    {body' : Float → RunState ω' → Ending × RunState ω'}
    {atCap : RunState ω → RunState ω} {atCap' : RunState ω' → RunState ω'}
    (hasked : ∀ {s t}, R s t → setting'.interruption t.checks t.channel =
      setting.interruption s.checks s.channel)
    (hcheck : ∀ {s t}, R s t →
      R { s with checks := s.checks + 1 } { t with checks := t.checks + 1 })
    (htest : ∀ x {s t}, R s t → Together R (test x s) (test' x t))
    (hbody : ∀ x {s t}, R s t → Together R (body x s) (body' x t))
    (hcap : ∀ {s t}, R s t → R (atCap s) (atCap' t)) (passes : Nat) (x : Float)
    {s : RunState ω} {t : RunState ω'} (h : R s t) :
    Together R (repeatWhile setting test body atCap passes x s)
      (repeatWhile setting' test' body' atCap' passes x t) := by
  -- Both loops are asked the same and answer the same, so the second one takes the same way.
  fun_induction repeatWhile setting test body atCap passes x s generalizing t with
  | case1 passes x s why hi =>
    rw [repeatWhile_of_interrupted ((hasked h).trans hi)]
    exact ⟨rfl, hcheck h⟩
  | case2 passes x s hi u ht =>
    obtain ⟨v, ht', huv⟩ := (htest x (hcheck h)).eq ht
    rw [repeatWhile_of_false ((hasked h).trans hi) ht']
    exact ⟨rfl, huv⟩
  | case3 x s hi u ht =>
    obtain ⟨v, ht', huv⟩ := (htest x (hcheck h)).eq ht
    rw [repeatWhile_zero_of_true ((hasked h).trans hi) ht']
    exact ⟨rfl, hcap huv⟩
  | case4 x s hi u ht passes y w hb ih =>
    obtain ⟨v, ht', huv⟩ := (htest x (hcheck h)).eq ht
    obtain ⟨w', hb', hw⟩ := (hbody x huv).eq hb
    rw [repeatWhile_succ_of_value ((hasked h).trans hi) ht' hb']
    exact ih hw
  | case5 x s hi u ht passes y w hb =>
    obtain ⟨v, ht', huv⟩ := (htest x (hcheck h)).eq ht
    obtain ⟨w', hb', hw⟩ := (hbody x huv).eq hb
    rw [repeatWhile_succ_of_leave ((hasked h).trans hi) ht' hb']
    exact ⟨rfl, hw⟩
  | case6 x s hi u ht passes why w hb =>
    obtain ⟨v, ht', huv⟩ := (htest x (hcheck h)).eq ht
    obtain ⟨w', hb', hw⟩ := (hbody x huv).eq hb
    rw [repeatWhile_succ_of_stopped ((hasked h).trans hi) ht' hb']
    exact ⟨rfl, hw⟩

/-- The output has refused something. -/
def Complaint.isOutput : Complaint → Bool
  | output _ => true
  | _ => false

/-- A relation between the states of two runs that have the same counters and are interrupted
together. It is kept as long as both runs do the same, with the same reports about blocks whose ids
belong together. What is printed and what the output says of it is left open. -/
structure Parallel (setting : Setting ω) (setting' : Setting ω') (same : BlockId → BlockId → Prop)
    (R : RunState ω → RunState ω' → Prop) : Prop where
  cap : setting'.iterationCap = setting.iterationCap
  asked : ∀ {s t}, R s t →
    setting'.interruption t.checks t.channel = setting.interruption s.checks s.channel
  scopes : ∀ {s t}, R s t → t.scopes = s.scopes
  check : ∀ {s t}, R s t → R { s with checks := s.checks + 1 } { t with checks := t.checks + 1 }
  rescope : ∀ {s t} (f : Scopes → Scopes), R s t →
    R { s with scopes := f s.scopes } { t with scopes := f t.scopes }
  report : ∀ {s t id id' c}, Complaint.isOutput c = false → same id id' → R s t →
    R (s.report id c) (t.report id' c)

namespace Parallel

variable {same : BlockId → BlockId → Prop} {id id' : BlockId} {tag tag' : Tag} {s : RunState ω}
  {t : RunState ω'}

/-- What two lists of blocks have to do to be kept together. -/
abbrev Lists (setting : Setting ω) (setting' : Setting ω') (R : RunState ω → RunState ω' → Prop)
    (bs cs : List Block) : Prop :=
  ∀ x {s t}, R s t → Together R (Block.runAll setting bs x s) (Block.runAll setting' cs x t)

/-- Blocks that print nothing stay together. -/
lemma action (h : Parallel setting setting' same R) (hid : same id id') (x : Float) (hR : R s t)
    {a : Action} (ha : a ≠ .print) :
    Together R (a.run setting id x s) (a.run setting' id' x t) := by
  cases a with
  | statement code =>
    rw [Action.run, Action.run, h.scopes hR]
    cases code.exec x s.scopes with
    | ok y => exact ⟨rfl, hR⟩
    | error e => exact ⟨rfl, h.report rfl hid hR⟩
  | print => exact absurd rfl ha
  | leave => exact ⟨rfl, hR⟩
  | addCounter name =>
    rw [Action.run, Action.run, h.scopes hR]
    cases s.scopes.get? name with
    | some counter => exact ⟨rfl, hR⟩
    | none => exact ⟨rfl, h.report rfl hid hR⟩

/-- Two runs that go together test a condition alike. -/
lemma test (h : Parallel setting setting' same R) (hid : same id id') (code : ConditionCode)
    (x : Float) (hR : R s t) : Together R (s.test id code x) (t.test id' code x) := by
  rw [RunState.test, RunState.test, h.scopes hR]
  cases code.eval x s.scopes with
  | ok v => exact ⟨rfl, hR⟩
  | error e => exact ⟨rfl, h.report rfl hid hR⟩

/-- Two loops whose bodies go together go together. -/
lemma loop (h : Parallel setting setting' same R) (hid : same id id') (kind : CompoundKind)
    (condition : ConditionCode) {body : Float → RunState ω → Ending × RunState ω}
    {body' : Float → RunState ω' → Ending × RunState ω'}
    (hbody : ∀ x {s t}, R s t → Together R (body x s) (body' x t)) (x : Float) (hR : R s t) :
    Together R (loop setting kind id condition body x s)
      (loop setting' kind id' condition body' x t) := by
  rw [BlockLang.loop, BlockLang.loop, h.cap]
  refine repeatWhile_together h.asked h.check ?_ hbody (h.report rfl hid) _ x hR
  exact fun x {s t} hR => h.test hid condition x hR

/-- Two passes of a for loop go together. -/
lemma forPass (h : Parallel setting setting' same R) (step : Float) {bs cs : List Block}
    (hbody : Lists setting setting' R bs cs) (x : Float) (hR : R s t) :
    Together R (forPass setting step bs x s) (forPass setting' step cs x t) := by
  rw [BlockLang.forPass, BlockLang.forPass]
  rcases hr : Block.runAll setting bs x s with ⟨y | y | why, u⟩ <;>
    obtain ⟨v, hr', huv⟩ := (hbody x hR).eq hr <;> rw [hr']
  · exact ⟨rfl, h.rescope _ huv⟩
  · exact ⟨rfl, huv⟩
  · exact ⟨rfl, huv⟩

/-- For loops with the same headers stay together if their bodies do. -/
lemma forLoop (h : Parallel setting setting' same R) (hid : same tag.id tag'.id)
    (headers : ForHeaders) {body body' : List Block} (hbody : Lists setting setting' R body body')
    (x : Float) (hR : R s t) :
    Together R ((Block.forLoop tag headers body).run setting x s)
      ((Block.forLoop tag' headers body').run setting' x t) := by
  rcases Block.forLoop_complete_or_missing tag headers body with
    ⟨init, condition, step, rfl⟩ | hm
  · have hloop : Together R
        (BlockLang.loop setting .forLoop tag.id condition (BlockLang.forPass setting step body) x
          (s.pushScope init))
        (BlockLang.loop setting' .forLoop tag'.id condition
          (BlockLang.forPass setting' step body') x (t.pushScope init)) :=
      h.loop hid .forLoop condition (fun x {s t} => h.forPass step hbody x) x
        (h.rescope (·.push init.counter init.value) hR)
    rw [Block.run_forLoop, Block.run_forLoop]
    exact ⟨hloop.1, h.rescope List.tail hloop.2⟩
  · -- What is missing depends on the headers only.
    have hm' : (Block.forLoop tag' headers body').missing ≠ [] := hm
    rw [Block.run_forLoop_of_missing hm, Block.run_forLoop_of_missing hm']
    exact ⟨rfl, h.report rfl hid hR⟩

/-- Two while loops go together. -/
lemma whileLoop (h : Parallel setting setting' same R) (hid : same tag.id tag'.id)
    (condition : Option ConditionCode) {body body' : List Block}
    (hbody : Lists setting setting' R body body') (x : Float) (hR : R s t) :
    Together R ((Block.whileLoop tag condition body).run setting x s)
      ((Block.whileLoop tag' condition body').run setting' x t) := by
  cases condition with
  | none => exact ⟨rfl, h.report rfl hid hR⟩
  | some condition => exact h.loop hid .whileLoop condition hbody x hR

/-- Two choices go together. -/
lemma ifElse (h : Parallel setting setting' same R) (hid : same tag.id tag'.id)
    (condition : Option ConditionCode) {ifPart ifPart' elsePart elsePart' : List Block}
    (hif : Lists setting setting' R ifPart ifPart')
    (helse : Lists setting setting' R elsePart elsePart') (x : Float) (hR : R s t) :
    Together R ((Block.ifElse tag condition ifPart elsePart).run setting x s)
      ((Block.ifElse tag' condition ifPart' elsePart').run setting' x t) := by
  cases condition with
  | none => exact ⟨rfl, h.report rfl hid hR⟩
  | some condition =>
    rw [Block.run_ifElse, Block.run_ifElse]
    rcases hr : s.test tag.id condition x with ⟨_ | _, u⟩ <;>
      obtain ⟨v, hr', huv⟩ := (h.test hid condition x hR).eq hr <;> rw [hr']
    · have hpart := helse x huv
      exact ⟨congrArg (Ending.backTo x) hpart.1, hpart.2⟩
    · have hpart := hif x huv
      exact ⟨congrArg (Ending.backTo x) hpart.1, hpart.2⟩

end Parallel

/-- Lists stay together if their first blocks do and the rest does. -/
lemma runAll_together {b c : Block} {bs cs : List Block} {x : Float} {s : RunState ω}
    {t : RunState ω'} (hb : Together R (b.run setting x s) (c.run setting' x t))
    (hbs : Parallel.Lists setting setting' R bs cs) :
    Together R (Block.runAll setting (b :: bs) x s) (Block.runAll setting' (c :: cs) x t) := by
  rcases hr : b.run setting x s with ⟨y | y | why, u⟩ <;> obtain ⟨v, hr', huv⟩ := hb.eq hr
  · rw [Block.runAll_cons_of_value hr, Block.runAll_cons_of_value hr']
    exact hbs y huv
  · rw [Block.runAll_cons_of_leave hr, Block.runAll_cons_of_leave hr']
    exact ⟨rfl, huv⟩
  · rw [Block.runAll_cons_of_interrupted hr, Block.runAll_cons_of_interrupted hr']
    exact ⟨rfl, huv⟩

/-! ## Programs -/

/-- Two outcomes have the same value and are interrupted alike, in related states. -/
structure Outcome.Together (R : RunState ω → RunState ω' → Prop) (o : Outcome ω) (o' : Outcome ω') :
    Prop where
  value : o'.value = o.value
  interrupted : o'.interrupted = o.interrupted
  state : R o.state o'.state

namespace Program

/-- Slots stay together if the blocks in the first slots do and the rest does. -/
lemma runSlots_together {same : BlockId → BlockId → Prop} (h : Parallel setting setting' same R)
    {b c : Block} (hid : same b.id c.id) {bs cs : List Block} {x : Float} {s : RunState ω}
    {t : RunState ω'} (hb : BlockLang.Together R (b.run setting x s) (c.run setting' x t))
    (hbs : ∀ x {s t}, R s t →
      (runSlots setting bs x s).Together R (runSlots setting' cs x t)) :
    (runSlots setting (b :: bs) x s).Together R (runSlots setting' (c :: cs) x t) := by
  rw [runSlots, runSlots]
  rcases hr : b.run setting x s with ⟨y | y | why, u⟩ <;>
    obtain ⟨v, hr', huv⟩ := hb.eq hr <;> rw [hr']
  · exact hbs y huv
  · exact hbs x (h.report rfl hid huv)
  · exact ⟨rfl, rfl, h.report rfl hid huv⟩

end Program

end BlockLang
