import SoemMotion.Command

/-!
# The task interface

`taskintf.cpp` and `usrmotintf.cpp`: the task side keeps a command block of its own, writes it over the shared one and
polls the status until the echo is the number it expects.  The number is the static `commandNum`, which nothing
increments, and no caller sets the number of the block.
-/

namespace SoemMotion

variable {K : Type}

/-! ### taskintf.cpp -/

/-- The calls that write a command. -/
inductive TaskCall
  | trajDisable
  | trajAbort
  | jogAbort (axis : Int)

def emcTrajDisable (block : Command K) : Command K := { block with command := .motionDisable }

def emcTrajAbort (block : Command K) : Command K := { block with command := .abort }

/-- None for an axis that does not exist: the call returns without writing. -/
def emcJogAbort (axis : Int) (block : Command K) : Option (Command K) :=
  if axis < 0 ∨ 3 ≤ axis then none else some { block with command := .jogAbort, axis := -1 }

/-- The block a call writes. -/
def TaskCall.block (call : TaskCall) (block : Command K) : Option (Command K) :=
  match call with
  | .trajDisable => some (emcTrajDisable block)
  | .trajAbort => some (emcTrajAbort block)
  | .jogAbort axis => emcJogAbort axis block

/-! ### usrmotintf.cpp -/

/-- The return codes of `usrmotWriteEmcmotCommand` for a block in mapped memory; the poll gives up after a second. -/
inductive CommResult
  | ok
  | errorCommand
  | errorTimeout
  | invalidMotionId
deriving DecidableEq, Repr

/-- The write of `usrmotWriteEmcmotCommand`; none for an invalid id, which is refused. -/
def usrmotWrite (s : Machine K) (block : Command K) : Option (Machine K) :=
  if block.id = motionInvalidId then none else some { s with command := block }

/-- One look of `usrmotWriteEmcmotCommand` at the status; none to go on polling. -/
def usrmotPoll (s : Machine K) : Option CommResult :=
  if s.status.commandNumEcho = 0 then
    if s.status.commandStatus = .ok then some .ok else some .errorCommand
  else none

end SoemMotion
