import BlockLang.Run.Basic

/-!
# Output kept in memory

A channel that keeps what is written to it, and settings for runs that write to it.
-/

namespace BlockLang

/-- What was written, and how many lines of it are complete. -/
structure Buffer where
  text : String := ""
  lines : Nat := 0

namespace Buffer

def append (buffer : Buffer) (piece : String) : Buffer :=
  ⟨buffer.text ++ piece, buffer.lines + piece.toList.count '\n'⟩

/-- Why a buffer that is full refuses to be written to. -/
def closed : String := "closed"

/-- Writes to a buffer that is full once it holds the given number of complete lines. -/
def write (room : Option Nat) (buffer : Buffer) (piece : String) : Option String × Buffer :=
  if room.any (· ≤ buffer.lines) then (some closed, buffer) else (none, buffer.append piece)

end Buffer

/-- For a time limit in milliseconds, how often a run asks whether it has to stop before the time
is over; none if it never is. -/
abbrev Clock := UInt64 → Option Nat

/-- A clock on which no time passes once a run has begun. -/
def Clock.still : Clock := fun limit => if limit = 0 then some 0 else none

/-- What limits a run. -/
structure Limits where
  iterationCap : UInt64 := defaultIterationCap
  timeLimit : Option UInt64 := none

/-- A setting with output in memory. A run is cancelled once `cancelAfter` lines are complete. -/
def Limits.setting (limits : Limits) (clock : Clock) (room cancelAfter : Option Nat) :
    Setting Buffer where
  iterationCap := limits.iterationCap
  write := Buffer.write room
  interruption checks buffer :=
    if cancelAfter.any (· ≤ buffer.lines) then some .cancelled
    else if (limits.timeLimit.bind clock).any (· ≤ checks) then some .timedOut
    else none

end BlockLang
