import BlockLang.Program.Basic
import BlockLang.Run.Diagnostic

/-!
# Runs

A run takes the program variable through the blocks of a program. What the run cannot know from
the program is given to it as a setting: how often a loop may repeat, what the output accepts, and
when the run has to stop. Nothing a block does wrong ends a run; it is reported, and the block
leaves the program variable as it was.
-/

namespace BlockLang

/-- How often a loop may repeat if nothing else is said. -/
def defaultIterationCap : UInt64 := 10000

/-- What surrounds a run, with an output channel of type `ω`. -/
structure Setting (ω : Type) where
  iterationCap : UInt64 := defaultIterationCap
  /-- Offers a piece of text to the output. If the output refuses it, it says why. -/
  write : ω → String → Option String × ω
  /-- Whether the run has to stop, asked with the number of times it was asked before. -/
  interruption : Nat → ω → Option Interruption

/-- Where a run has got to, apart from the program variable. -/
structure RunState (ω : Type) where
  channel : ω
  scopes : Scopes := []
  diagnostics : Array Diagnostic := #[]
  /-- How often the run has asked whether it has to stop. -/
  checks : Nat := 0

/-- How a block ends: with the new value of the program variable, on the way out of a loop, or cut
short. On the way out of a loop the value is the one that the block began with. -/
inductive Ending where
  | value (x : Float)
  | leave (x : Float)
  | interrupted (why : Interruption)

namespace RunState

variable {ω : Type}

def report (s : RunState ω) (block : BlockId) (complaint : Complaint) : RunState ω :=
  { s with diagnostics := s.diagnostics.push ⟨block, complaint⟩ }

def pushScope (s : RunState ω) (init : Init) : RunState ω :=
  { s with scopes := s.scopes.push init.counter init.value }

def popScope (s : RunState ω) : RunState ω :=
  { s with scopes := s.scopes.tail }

def advance (s : RunState ω) (step : Float) : RunState ω :=
  { s with scopes := s.scopes.advance step }

/-- Writes pieces of text up to the first that the output refuses, which is reported. -/
def write (setting : Setting ω) (block : BlockId) : List String → RunState ω → RunState ω
  | [], s => s
  | piece :: pieces, s =>
    match setting.write s.channel piece with
    | (none, channel) => write setting block pieces { s with channel }
    | (some reason, channel) => { s with channel }.report block (.output reason)

/-- Whether a condition holds. One that cannot be evaluated does not, and is reported. -/
def test (block : BlockId) (condition : ConditionCode) (x : Float) (s : RunState ω) :
    Bool × RunState ω :=
  match condition.eval x s.scopes with
  | .ok v => (v.isTruthy, s)
  | .error error => (false, s.report block (.expression error condition.text))

end RunState

variable {ω : Type}

/-- Repeats a body while a test holds, at most `passes` times. If the test holds once more after
that, `atCap` has the last word. -/
def repeatWhile (setting : Setting ω) (test : Float → RunState ω → Bool × RunState ω)
    (body : Float → RunState ω → Ending × RunState ω) (atCap : RunState ω → RunState ω)
    (passes : Nat) (x : Float) (s : RunState ω) : Ending × RunState ω :=
  -- The run is asked to stop before the condition is looked at, also on the last pass.
  match setting.interruption s.checks s.channel with
  | some why => (.interrupted why, { s with checks := s.checks + 1 })
  | none =>
    match test x { s with checks := s.checks + 1 } with
    | (false, s) => (.value x, s)
    | (true, s) =>
      match passes with
      | 0 => (.value x, atCap s)
      | passes + 1 =>
        match body x s with
        | (.value y, s) => repeatWhile setting test body atCap passes y s
        | (.leave y, s) => (.value y, s)
        | (.interrupted why, s) => (.interrupted why, s)

/-- A loop with the given condition and body. -/
def loop (setting : Setting ω) (kind : CompoundKind) (block : BlockId) (condition : ConditionCode)
    (body : Float → RunState ω → Ending × RunState ω) (x : Float) (s : RunState ω) :
    Ending × RunState ω :=
  repeatWhile setting (RunState.test block condition) body
    (·.report block (.iterationCap kind setting.iterationCap)) setting.iterationCap.toNat x s

/-- Runs a block that has no others inside it. -/
def Action.run (setting : Setting ω) (block : BlockId) (x : Float) (s : RunState ω) :
    Action → Ending × RunState ω
  | statement code =>
    match code.exec x s.scopes with
    | .ok y => (.value y, s)
    | .error error => (.value x, s.report block (.expression error code.text))
  | print => (.value x, s.write setting block [(Value.number x).text, "\n"])
  | leave => (.leave x, s)
  | addCounter name =>
    match s.scopes.get? name with
    | some counter => (.value (x + counter), s)
    | none => (.value x, s.report block (.counterNotFound name))

mutual

/-- Runs a block from the value `x` of the program variable. -/
def Block.run (setting : Setting ω) (b : Block) (x : Float) (s : RunState ω) :
    Ending × RunState ω :=
  match b with
  | .action tag a => a.run setting tag.id x s
  | .forLoop tag ⟨some init, some condition, some step⟩ body =>
    let pass (x : Float) (s : RunState ω) : Ending × RunState ω :=
      match Block.runAll setting body x s with
      | (.value y, s) => (.value y, s.advance step)
      | stopped => stopped
    let (ending, s) := loop setting .forLoop tag.id condition pass x (s.pushScope init)
    (ending, s.popScope)
  | .whileLoop tag (some condition) body =>
    loop setting .whileLoop tag.id condition (Block.runAll setting body) x s
  | .ifElse tag (some condition) ifPart elsePart =>
    let (holds, s) := s.test tag.id condition x
    match if holds then Block.runAll setting ifPart x s else Block.runAll setting elsePart x s with
    -- What the section has done to the program variable is lost on the way out.
    | (.leave _, s) => (.leave x, s)
    | ended => ended
  | .forLoop tag headers body =>
    (.value x, s.report tag.id (.missingHeader .forLoop (Block.forLoop tag headers body).missing))
  | .whileLoop tag none _ => (.value x, s.report tag.id (.missingHeader .whileLoop [.condition]))
  | .ifElse tag none _ _ => (.value x, s.report tag.id (.missingHeader .ifElse [.condition]))

/-- Runs blocks one after the other until one does not end with a value. -/
def Block.runAll (setting : Setting ω) (bs : List Block) (x : Float) (s : RunState ω) :
    Ending × RunState ω :=
  match bs with
  | [] => (.value x, s)
  | b :: bs =>
    match Block.run setting b x s with
    | (.value y, s) => Block.runAll setting bs y s
    | stopped => stopped

end

/-- What a run leaves behind. -/
structure Outcome (ω : Type) where
  /-- The program variable after the last block in a slot that was not cut short. -/
  value : Float
  interrupted : Option Interruption
  state : RunState ω

namespace Program

/-- Runs the blocks in the slots of a program. A block on its way out of a loop finds none here and
is reported. -/
def runSlots (setting : Setting ω) : List Block → Float → RunState ω → Outcome ω
  | [], x, s => ⟨x, none, s⟩
  | b :: bs, x, s =>
    match b.run setting x s with
    | (.value y, s) => runSlots setting bs y s
    | (.leave _, s) => runSlots setting bs x (s.report b.id .leaveOutsideLoop)
    | (.interrupted why, s) => ⟨x, some why, s.report b.id (.interrupted why)⟩

/-- Runs a program from a value of its variable. -/
def run (p : Program) (setting : Setting ω) (initial : Float) (channel : ω) : Outcome ω :=
  runSlots setting p.blocks initial { channel }

end Program

namespace Outcome

def diagnostics (outcome : Outcome ω) : List Diagnostic :=
  outcome.state.diagnostics.toList

def channel (outcome : Outcome ω) : ω :=
  outcome.state.channel

end Outcome

end BlockLang
