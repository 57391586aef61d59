import BlockLang.Block.Basic
import BlockLang.Expr.Eval

/-!
# Diagnostics

What a run has to say about the blocks it meets.
-/

namespace BlockLang

/-- Why a run stops before its end. -/
inductive Interruption where
  | cancelled
  | timedOut
deriving Repr, DecidableEq

def Interruption.message : Interruption → String
  | cancelled => "run was cancelled"
  | timedOut => "run exceeded its time limit"

inductive Complaint where
  /-- The code of a block, whose text is given, could not be evaluated. -/
  | expression (error : ExprError) (text : String)
  | missingHeader (block : CompoundKind) (missing : List HeaderKind)
  | iterationCap (block : CompoundKind) (cap : UInt64)
  | counterNotFound (name : String)
  | leaveOutsideLoop
  /-- The output refused what was printed. -/
  | output (reason : String)
  | interrupted (why : Interruption)

namespace Complaint

def message : Complaint → String
  | expression error _ => error.message
  | missingHeader block missing =>
    block.name ++ " is missing its " ++ " and ".intercalate (missing.map HeaderKind.name) ++
      " header"
  | iterationCap block cap =>
    block.name ++ " stopped after " ++ Nat.repr cap.toNat ++ " iterations"
  | counterNotFound name => "loop variable '" ++ name ++ "' not found"
  | leaveOutsideLoop => "break outside of a loop has no effect"
  | output reason => "failed to write output: " ++ reason
  | interrupted why => why.message

/-- Warnings are about programs that may still do what they should. -/
def isWarning : Complaint → Bool
  | missingHeader .. | iterationCap .. | counterNotFound _ | leaveOutsideLoop => true
  | expression .. | output _ | interrupted _ => false

/-- The text that the complaint is about and the place in it. -/
def excerpt? : Complaint → Option (String × Span)
  | expression error text => some (text, error.span)
  | _ => none

end Complaint

/-- A complaint and the block it is about. -/
structure Diagnostic where
  block : BlockId
  complaint : Complaint

namespace Diagnostic

def message (d : Diagnostic) : String := d.complaint.message

def isWarning (d : Diagnostic) : Bool := d.complaint.isWarning

end Diagnostic

end BlockLang
