import BlockLang.Proofs.Program.Addresses
import BlockLang.Proofs.Run.Append

/-!
# The lists that a run begins

A run begins a list of blocks inside a program whenever it comes to it: a body in each pass of its
loop, a section when its condition has chosen it. Main statement: if another list in its place does
the same from wherever the run begins it, the whole run stays as it is.
-/

namespace BlockLang

variable {ω : Type} {setting : Setting ω}

/-! ## Passes of a loop -/

/-- A loop that has at most `passes` passes left comes from `x` and `s` to a pass that begins with
the value `y` and in the state `t`. -/
inductive BeginsPass (setting : Setting ω) (test : Float → RunState ω → Bool × RunState ω)
    (body : Float → RunState ω → Ending × RunState ω) :
    Nat → Float → RunState ω → Float → RunState ω → Prop
  | first {passes x s t} :
    setting.interruption s.checks s.channel = none →
    test x { s with checks := s.checks + 1 } = (true, t) →
    BeginsPass setting test body (passes + 1) x s x t
  | later {passes x s t y u z v} :
    setting.interruption s.checks s.channel = none →
    test x { s with checks := s.checks + 1 } = (true, t) →
    body x t = (.value y, u) → BeginsPass setting test body passes y u z v →
    BeginsPass setting test body (passes + 1) x s z v

section Passes

variable {test : Float → RunState ω → Bool × RunState ω}
  {body body' : Float → RunState ω → Ending × RunState ω} {atCap : RunState ω → RunState ω}

/-- Only what the body does in the passes that begin makes a difference. -/
lemma repeatWhile_congr_body (passes : Nat) (x : Float) (s : RunState ω)
    (h : ∀ y t, BeginsPass setting test body passes x s y t → body' y t = body y t) :
    repeatWhile setting test body' atCap passes x s =
      repeatWhile setting test body atCap passes x s := by
  fun_induction repeatWhile setting test body atCap passes x s with
  | case1 passes x s why hi => exact repeatWhile_of_interrupted hi
  | case2 passes x s hi t ht => exact repeatWhile_of_false hi ht
  | case3 x s hi t ht => exact repeatWhile_zero_of_true hi ht
  | case4 x s hi t ht passes y u hb ih =>
    have hb' : body' x t = (.value y, u) := (h x t (.first hi ht)).trans hb
    rw [repeatWhile_succ_of_value hi ht hb']
    exact ih fun z v hbegins => h z v (.later hi ht hb hbegins)
  | case5 x s hi t ht passes y u hb =>
    exact repeatWhile_succ_of_leave hi ht ((h x t (.first hi ht)).trans hb)
  | case6 x s hi t ht passes why u hb =>
    exact repeatWhile_succ_of_stopped hi ht ((h x t (.first hi ht)).trans hb)

/-- A loop does the same with a body that does the same in every pass that begins. -/
lemma loop_congr_body {kind : CompoundKind} {id : BlockId} {condition : ConditionCode} {x : Float}
    {s : RunState ω}
    (h : ∀ y t, BeginsPass setting (RunState.test id condition) body setting.iterationCap.toNat x s
      y t → body' y t = body y t) :
    loop setting kind id condition body' x s = loop setting kind id condition body x s :=
  repeatWhile_congr_body _ x s h

/-- A pass that ends on the way out ends the loop, with the value that the pass has ended with. -/
lemma repeatWhile_of_beginsPass_of_leave {passes : Nat} {x y z : Float} {s t u : RunState ω}
    (h : BeginsPass setting test body passes x s y t) (hleave : body y t = (.leave z, u)) :
    repeatWhile setting test body atCap passes x s = (.value z, u) := by
  induction h with
  | first hi ht => exact repeatWhile_succ_of_leave hi ht hleave
  | later hi ht hb _ ih =>
    rw [repeatWhile_succ_of_value hi ht hb]
    exact ih hleave

end Passes

/-! ## Blocks and lists of blocks -/

namespace Block

variable {pre bs cs : List Block} {b : Block} {part : Part} {path : Path} {x y z : Float}
  {s t u : RunState ω}

/-- The second of two lists is run from where the first one has led, if it ends with a value. -/
lemma runAll_append (pre post : List Block) (x : Float) (s : RunState ω) :
    runAll setting (pre ++ post) x s =
      match runAll setting pre x s with
      | (.value y, t) => runAll setting post y t
      | stopped => stopped := by
  induction pre generalizing x s with
  | nil => rfl
  | cons b pre ih =>
    simp only [List.cons_append, runAll]
    rcases b.run setting x s with ⟨y | y | why, t⟩
    · exact ih y t
    · rfl
    · rfl

/-- Blocks in front that end with a value hand it to those behind. -/
lemma runAll_append_of_value (h : runAll setting pre x s = (.value y, t)) (post : List Block) :
    runAll setting (pre ++ post) x s = runAll setting post y t := by
  rw [runAll_append, h]

/-- After blocks in front that are on the way out those behind are not run. -/
lemma runAll_append_of_leave (h : runAll setting pre x s = (.leave y, t)) (post : List Block) :
    runAll setting (pre ++ post) x s = (.leave y, t) := by
  rw [runAll_append, h]

/-- Lists with the same beginning differ only in what they do after it. -/
lemma runAll_append_congr
    (h : ∀ y t, runAll setting pre x s = (.value y, t) →
      runAll setting bs y t = runAll setting cs y t) :
    runAll setting (pre ++ bs) x s = runAll setting (pre ++ cs) x s := by
  rw [runAll_append, runAll_append]
  rcases hr : runAll setting pre x s with ⟨y | y | why, t⟩
  · exact h y t hr
  · rfl
  · rfl

/-- Lists with the same end differ only in what they do before it. -/
lemma runAll_append_congr_left (h : runAll setting bs x s = runAll setting cs x s)
    (post : List Block) :
    runAll setting (bs ++ post) x s = runAll setting (cs ++ post) x s := by
  rw [runAll_append, runAll_append, h]

/-- One block in a row is run as it is. -/
lemma runAll_singleton (b : Block) (x : Float) (s : RunState ω) :
    runAll setting [b] x s = b.run setting x s := by
  rcases hr : b.run setting x s with ⟨y | y | why, t⟩
  · exact runAll_cons_of_value hr
  · exact runAll_cons_of_leave hr
  · exact runAll_cons_of_interrupted hr

/-- Only what the changed block does when the run comes to it makes a difference. -/
lemma runAll_modify {f : Block → Block} {index : Nat}
    (h : ∀ b y t, bs[index]? = some b → runAll setting (bs.take index) x s = (.value y, t) →
      (f b).run setting y t = b.run setting y t) :
    runAll setting (bs.modify index f) x s = runAll setting bs x s := by
  by_cases hindex : index < bs.length
  · obtain ⟨pre, b, post, rfl, rfl, hmodify⟩ := List.exists_of_modify f hindex
    rw [hmodify]
    refine runAll_append_congr fun y t hpre => ?_
    rw [List.take_left] at h
    have hb := h b y t (by simp) hpre
    simp only [runAll, hb]
  · rw [List.modify_eq_self (Nat.le_of_not_lt hindex)]

/-! ### The parts of a block -/

/-- A run of the block from `x` and `s` comes to a part of it with the value `y` and in the
state `t`. -/
inductive BeginsPart (setting : Setting ω) :
    Block → Float → RunState ω → Part → Float → RunState ω → Prop
  | forLoop {tag init condition step body x s y t} :
    BeginsPass setting (RunState.test tag.id condition) (forPass setting step body)
      setting.iterationCap.toNat x (s.pushScope init) y t →
    BeginsPart setting (.forLoop tag ⟨some init, some condition, some step⟩ body) x s .body y t
  | whileLoop {tag condition body x s y t} :
    BeginsPass setting (RunState.test tag.id condition) (runAll setting body)
      setting.iterationCap.toNat x s y t →
    BeginsPart setting (.whileLoop tag (some condition) body) x s .body y t
  | ifPart {tag condition ifPart elsePart x s t} :
    s.test tag.id condition x = (true, t) →
    BeginsPart setting (.ifElse tag (some condition) ifPart elsePart) x s .ifPart x t
  | elsePart {tag condition ifPart elsePart x s t} :
    s.test tag.id condition x = (false, t) →
    BeginsPart setting (.ifElse tag (some condition) ifPart elsePart) x s .elsePart x t

/-- What a block makes of how a part of it ends, which began with the value `y`: an if/else takes
the program variable back on the way out of a loop. -/
def Part.ending (y : Float) : Part → Ending → Ending
  | body, ending => ending
  | ifPart, ending | elsePart, ending => ending.backTo y

/-- The list does what the other one does, for the block that it is a part of. -/
def Part.Alike (part : Part) (setting : Setting ω) (bs cs : List Block) (y : Float)
    (t : RunState ω) : Prop :=
  part.ending y (runAll setting bs y t).1 = part.ending y (runAll setting cs y t).1 ∧
    (runAll setting bs y t).2 = (runAll setting cs y t).2

/-- Blocks that run equally are alike in every part. -/
lemma Part.alike_of_eq (h : runAll setting bs y t = runAll setting cs y t) :
    part.Alike setting bs cs y t := by
  rw [Alike, h]
  exact ⟨rfl, rfl⟩

/-- In the body of a loop blocks are alike only if they run equally. -/
lemma Part.alike_body_iff : Part.body.Alike setting bs cs y t ↔
    runAll setting bs y t = runAll setting cs y t := by
  rw [Alike, Prod.ext_iff, ending, ending]

/-- A list in the place of a part, which does the same from wherever the part is begun. -/
lemma run_setPart (hpart : b.part? part = some cs)
    (h : ∀ y t, b.BeginsPart setting x s part y t → part.Alike setting bs cs y t) :
    (b.setPart part bs).run setting x s = b.run setting x s := by
  cases b with
  | action => cases hpart
  | forLoop tag headers body =>
    cases part with
    | ifPart | elsePart => cases hpart
    | body =>
      cases hpart
      show (Block.forLoop tag headers bs).run setting x s = _
      rcases forLoop_complete_or_missing tag headers cs with ⟨init, condition, step, rfl⟩ | hm
      · -- The bodies are compared only where a pass begins with them.
        have hloop : loop setting .forLoop tag.id condition (forPass setting step bs) x
              (s.pushScope init) =
            loop setting .forLoop tag.id condition (forPass setting step cs) x
              (s.pushScope init) :=
          loop_congr_body fun y t hbegins => by
            simp only [forPass, Part.alike_body_iff.mp (h y t (.forLoop hbegins))]
        rw [run_forLoop, run_forLoop, hloop]
      · have hm' : (Block.forLoop tag headers bs).missing ≠ [] := hm
        rw [run_forLoop_of_missing hm, run_forLoop_of_missing hm']
        rfl
  | whileLoop tag condition body =>
    cases part with
    | ifPart | elsePart => cases hpart
    | body =>
      cases hpart
      cases condition with
      | none => rfl
      | some condition =>
        exact loop_congr_body fun y t hbegins =>
          Part.alike_body_iff.mp (h y t (.whileLoop hbegins))
  | ifElse tag condition ifPart elsePart =>
    cases condition with
    | none => cases part <;> rfl
    | some condition =>
      rcases ht : s.test tag.id condition x with ⟨holds, t⟩
      cases part with
      | body => cases hpart
      | ifPart =>
        cases hpart
        show (Block.ifElse tag (some condition) bs elsePart).run setting x s = _
        rw [run_ifElse, run_ifElse, ht]
        cases holds with
        | false => rfl
        | true => exact Prod.ext_iff.mpr (h x t (.ifPart ht))
      | elsePart =>
        cases hpart
        show (Block.ifElse tag (some condition) ifPart bs).run setting x s = _
        rw [run_ifElse, run_ifElse, ht]
        cases holds with
        | false => exact Prod.ext_iff.mpr (h x t (.elsePart ht))
        | true => rfl

/-- A run of the block from `x` and `s` comes to a part of the block at the end of the path with
the value `y` and in the state `t`. -/
def BeginsAt (setting : Setting ω) (part : Part) (y : Float) (t : RunState ω) :
    Path → Block → Float → RunState ω → Prop
  | [], b, x, s => b.BeginsPart setting x s part y t
  | (outer, index) :: path, b, x, s => ∃ cs c z u w v,
    b.part? outer = some cs ∧ cs[index]? = some c ∧ b.BeginsPart setting x s outer z u ∧
      runAll setting (cs.take index) z u = (.value w, v) ∧ BeginsAt setting part y t path c w v

/-- The same for a part of a block that is found along a path. -/
lemma run_replace (hpart : (b.follow? path).bind (·.part? part) = some cs)
    (h : ∀ y t, BeginsAt setting part y t path b x s → part.Alike setting bs cs y t) :
    (b.replace part bs path).run setting x s = b.run setting x s := by
  induction path generalizing b x s with
  | nil => exact run_setPart hpart h
  | cons step path ih =>
    obtain ⟨outer, index⟩ := step
    cases houter : b.part? outer with
    | none => simp only [replace, houter]
    | some ds =>
      rw [replace_cons houter]
      refine run_setPart houter fun z u hbegins => Part.alike_of_eq ?_
      refine runAll_modify fun c w v hc htake => ?_
      rw [follow?_cons houter, hc] at hpart
      exact ih hpart fun y t hat =>
        h y t ⟨ds, c, z, u, w, v, houter, hc, hbegins, htake, hat⟩

end Block

/-! ## Programs -/

namespace Program

variable {p : Program} {a : ListAddress} {bs cs : List Block}

/-- The run of a program comes to the list at an address with the value `y` and in the
state `t`. -/
def Begins (p : Program) (setting : Setting ω) (initial : Float) (channel : ω) (a : ListAddress)
    (y : Float) (t : RunState ω) : Prop :=
  ∃ b, p.slots[a.slot]? = some (some b) ∧
    let before := (mk (p.slots.take a.slot)).run setting initial channel
    before.interrupted = none ∧ b.BeginsAt setting a.part y t a.path before.value before.state

/-- Slots with the same beginning differ only in what they do after it. -/
lemma runSlots_append_congr {pre bs cs : List Block} {x : Float} {s : RunState ω}
    (h : let before := runSlots setting pre x s
      before.interrupted = none →
        runSlots setting bs before.value before.state =
          runSlots setting cs before.value before.state) :
    runSlots setting (pre ++ bs) x s = runSlots setting (pre ++ cs) x s := by
  induction pre generalizing x s with
  | nil => exact h rfl
  | cons b pre ih =>
    simp only [List.cons_append, runSlots] at h ⊢
    rcases hr : b.run setting x s with ⟨y | y | why, t⟩
    · rw [hr] at h
      exact ih h
    · rw [hr] at h
      exact ih h
    · rfl

/-- A run is the same if the list at an address does the same from wherever the run begins it. -/
theorem run_withList {setting : Setting ω} {initial : Float} {channel : ω}
    (hlist : p.listAt? a = some cs)
    (h : ∀ y t, p.Begins setting initial channel a y t → a.part.Alike setting bs cs y t) :
    (p.withList a bs).run setting initial channel = p.run setting initial channel := by
  obtain ⟨b, hslot, hpart⟩ := exists_slot_of_listAt? hlist
  obtain ⟨pre, slot, post, hslots, hlength, hmodify⟩ :=
    List.exists_of_modify (Option.map (Block.replace a.part bs a.path))
      (List.getElem?_eq_some_iff.mp hslot).1
  have hsome : slot = some b := by
    simpa [hslots, ← hlength] using hslot
  have htake : p.slots.take a.slot = pre := by
    rw [hslots, ← hlength, List.take_left]
  have hblocks : p.blocks = (mk pre).blocks ++ b :: (mk post).blocks := by
    simp [blocks, hslots, hsome]
  have hblocks' : (p.withList a bs).blocks =
      (mk pre).blocks ++ b.replace a.part bs a.path :: (mk post).blocks := by
    simp [blocks, withList, hmodify, hsome]
  rw [run, run, hblocks, hblocks']
  refine runSlots_append_congr ?_
  intro before hnone
  have hrun : (b.replace a.part bs a.path).run setting before.value before.state =
      b.run setting before.value before.state :=
    Block.run_replace hpart fun y t hat => h y t ⟨b, hslot, by rw [htake]; exact ⟨hnone, hat⟩⟩
  simp only [runSlots, hrun, Block.id_replace]

end Program

end BlockLang
