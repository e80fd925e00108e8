import SoemMotion.Control
import SoemMotion.Hpsocket
import SoemMotion.Lib.Run

/-!
# The system

The threads of the program as one transition system: `ProcessTask` publishes the command of a received frame, the
motion thread runs the command handler and the controller.  A `command` event stands for any other writer of the
command block; the runs the network alone can cause are those without it.
-/

namespace SoemMotion

variable {K : Type} [Arith K]

inductive Event (K : Type)
  | frame (frame : LinuxFrame)
  | command (command : Command K)
  | handle (jogInhibit : Bool)
  | cycle (inp : Inputs)

/-- One call of `ProcessTask`, of a writer of the command block, of the handler, or of the controller. -/
inductive Step : Machine K → Event K → Machine K → Prop
  | frame {s t : Machine K} {f : LinuxFrame} (h : processFrame s f = some t) : Step s (.frame f) t
  | command (s : Machine K) (c : Command K) : Step s (.command c) { s with command := c }
  | handle {s t : Machine K} {j : Bool} (h : emcmotCommandHandler s j = some t) : Step s (.handle j) t
  | cycle {s t : Machine K} {inp : Inputs} {fuel : Nat}
      (h : emcmotController s inp motionThreadPeriod fuel = some t) : Step s (.cycle inp) t

/-- The states reachable from the initialised machine. -/
def Reachable (numAxes : Int) (s : Machine K) : Prop := Lib.Reaches Step (initMachine numAxes) s

/-- An event the network can cause. -/
def Event.fromNetwork : Event K → Prop
  | .command _ => False
  | _ => True

/-- The states reachable from the initialised machine when every command arrives as a network frame. -/
def NetReachable (numAxes : Int) (s : Machine K) : Prop :=
  Lib.Reaches (Lib.Restrict Step fun _ e _ => e.fromNetwork) (initMachine numAxes) s

theorem NetReachable.reachable {numAxes : Int} {s : Machine K} (h : NetReachable numAxes s) :
    Reachable numAxes s :=
  h.of_restrict

/-! ### Runs on given events -/

/-- What one event does, the controller's loop being run with the given fuel. -/
def Event.run (fuel : Nat) (s : Machine K) : Event K → Option (Machine K)
  | .frame f => processFrame s f
  | .command c => some { s with command := c }
  | .handle j => emcmotCommandHandler s j
  | .cycle inp => emcmotController s inp motionThreadPeriod fuel

def runEvents (fuel : Nat) (s : Machine K) : List (Event K) → Option (Machine K)
  | [] => some s
  | e :: es => (e.run fuel s).bind fun s => runEvents fuel s es

theorem Event.run_step {fuel : Nat} {s t : Machine K} {e : Event K} (h : e.run fuel s = some t) : Step s e t := by
  cases e with
  | frame f => exact .frame h
  | command c =>
    cases h
    exact .command s c
  | handle j => exact .handle h
  | cycle inp => exact .cycle h

/-- A run on network events ends in a state the network can reach. -/
theorem runEvents_netReaches {fuel : Nat} {s t : Machine K} {es : List (Event K)} (hes : ∀ e ∈ es, e.fromNetwork)
    (h : runEvents fuel s es = some t) : Lib.Reaches (Lib.Restrict Step fun _ e _ => e.fromNetwork) s t := by
  induction es generalizing s with
  | nil =>
    cases h
    exact Lib.Reaches.refl _
  | cons e es ih =>
    obtain ⟨u, hu, ht⟩ := Option.bind_eq_some_iff.1 h
    have hstep : Lib.Reaches (Lib.Restrict Step fun _ e _ => e.fromNetwork) s u :=
      (Lib.Reaches.refl s).tail ⟨Event.run_step hu, hes e (by simp)⟩
    exact hstep.trans (ih (fun e' he' => hes e' (List.mem_cons_of_mem e he')) ht)

/-- The frame of a command without parameters of its own. -/
def plainFrame (code axis : UInt8) : LinuxFrame where
  header := 0x55AA55AA
  dataLength := 8
  payload := fun i => if i = 0 then code else if i = 2 then axis else 0
  checksum := 8 + code.toNat + axis.toNat

/-- Inputs at rest. -/
def restInputs : Inputs where
  axis := fun _ => ⟨0, false, false, false, false⟩
  jogStop := false
  jogStopImmediate := false
  miscError := fun _ => false

end SoemMotion
