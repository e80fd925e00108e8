import SoemMotion.StreamReassembly
import SoemMotion.System

/-!
# The downlink

The receive callback, `ProcessTask` and the motion thread as one system, and the meaning of a frame: the request its
payload asks for, and what publishing a request writes.
-/

namespace SoemMotion

variable {K : Type} [Arith K]

/-! ### Requests -/

/-- What a frame asks for, with the parameters its command carries. -/
inductive Request
  | downloadsConfig (axis : Nat) (vel acc maxvel maxacc maxAxisScale maxLimit minLimit : Int)
  | jogCont (axis : Nat) (vel acc dir : Int)
  | jogIncr (axis : Nat) (vel acc pos dir : Int)
  | jogAbs (axis : Nat) (vel acc pos : Int)
  | setLine (axis : Nat) (startVel vel acc ref dir : Int) (pos : Fin 3 → Int) (selects : Fin 3 → Bool)
  | enable (axis : Nat) (fl : Bool)
  | plain (code : CmdCode) (axis : Nat)

/-- The code of the command. -/
def Request.code : Request → CmdCode
  | .downloadsConfig .. => .downloadsConfig
  | .jogCont .. => .jogCont
  | .jogIncr .. => .jogIncr
  | .jogAbs .. => .jogAbs
  | .setLine .. => .setLine
  | .enable _ fl => if fl then .axisEnable else .axisDisable
  | .plain code _ => code

/-- The axis index of the frame. -/
def Request.axis : Request → Nat
  | .downloadsConfig axis .. => axis
  | .jogCont axis .. => axis
  | .jogIncr axis .. => axis
  | .jogAbs axis .. => axis
  | .setLine axis .. => axis
  | .enable axis _ => axis
  | .plain _ axis => axis

/-- The request of a frame that is long enough for the parameters of its command. -/
def LinuxFrame.decoded (frame : LinuxFrame) : Option Request :=
  let axis := frame.u16 2
  match CmdCode.ofIndex (frame.u16 0) with
  | .downloadsConfig =>
    some (.downloadsConfig axis (frame.param 2) (frame.param 5) (frame.param 7) (frame.param 8) (frame.param 10)
      (frame.param 12) (frame.param 13))
  | .axisEnable => some (.enable axis true)
  | .axisDisable => some (.enable axis false)
  | .jogCont => some (.jogCont axis (frame.param 0) (frame.param 1) (frame.param 3))
  | .jogIncr => some (.jogIncr axis (frame.param 0) (frame.param 2) (frame.param 4) (frame.param 5))
  | .jogAbs => some (.jogAbs axis (frame.param 0) (frame.param 2) (frame.param 4))
  | .setLine =>
    some (.setLine axis (frame.param 0) (frame.param 1) (frame.param 2) (frame.param 4) (frame.param 5)
      (fun i => frame.param (6 + i.val)) fun i => decide (frame.param (9 + i.val) = 1))
  | .motionEnable => some (.plain .motionEnable axis)
  | .motionDisable => some (.plain .motionDisable axis)
  | .jogAbort => some (.plain .jogAbort axis)
  | .setFree => some (.plain .setFree axis)
  | .setCoord => some (.plain .setCoord axis)
  | _ => none

/-- The request of a frame, none if its command is unknown or its parameters are taken for incomplete. -/
def LinuxFrame.request (frame : LinuxFrame) : Option Request :=
  if frame.paramDataLength < (CmdCode.ofIndex (frame.u16 0)).paramSize then none else frame.decoded

/-- The velocity and acceleration a request gives an axis, with the limits of the last configuration. -/
def publishAxis (s : Machine K) (axis : Nat) (vel acc : Int) : Option (Machine K) :=
  s.writeAxis axis fun a => configureAxis a s.command vel acc

/-- The command block of a request: what the request carries is written, all else is kept. -/
def Request.command (r : Request) (cmd : Command K) : Command K :=
  match r with
  | .downloadsConfig axis vel acc maxvel maxacc maxAxisScale maxLimit minLimit =>
    { cmd.publish .downloadsConfig axis with
      maxacc := maxacc, maxvel := maxvel, acc := acc, vel := vel, maxAxisScale := (maxAxisScale : K)
      maxLimit := maxLimit, minLimit := minLimit }
  | .jogCont axis _ _ dir => Command.publish { cmd with dir := dir } .jogCont axis
  | .jogIncr axis _ _ pos dir => Command.publish { cmd with dir := dir, offset := (pos : K) } .jogIncr axis
  | .jogAbs axis _ _ pos => Command.publish { cmd with offset := (pos : K) } .jogAbs axis
  | .setLine axis startVel vel acc ref dir pos _ =>
    { cmd.publish .setLine axis with
      pos := { cmd.pos with tran := ⟨(pos 0 : K), (pos 1 : K), (pos 2 : K)⟩ }
      iniMaxvel := startVel, vel := vel, acc := acc, motionType := 2, dir := dir, ref := ref, spindle := axis }
  | .enable axis fl => cmd.publish (if fl then .axisEnable else .axisDisable) axis
  | .plain code axis => cmd.publish code axis

/-- What a request writes apart from the command block. -/
def Request.prepare (r : Request) (s : Machine K) : Option (Machine K) :=
  match r with
  | .jogCont axis vel acc _ => publishAxis s axis vel acc
  | .jogIncr axis vel acc _ _ => publishAxis s axis vel acc
  | .jogAbs axis vel acc _ => publishAxis s axis vel acc
  | .setLine _ _ vel acc _ _ _ selects =>
    some { s with axes := fun i => if selects i then configureAxis (s.axes i) s.command vel acc else s.axes i }
  | .enable _ fl => some { s with hal := { s.hal with enable := fl } }
  | _ => some s

/-- Publishing a request; no request leaves the machine alone. -/
def publish (r : Option Request) (s : Machine K) : Option (Machine K) :=
  match r with
  | none => some s
  | some r => (r.prepare s).map fun t => { t with command := r.command s.command }

omit [Arith K] in
theorem configureLineAxes_eq (s : Machine K) (frame : LinuxFrame) :
    configureLineAxes s frame =
      { s with axes := fun i => if decide (frame.param (9 + i.val) = 1) = true then
          configureAxis (s.axes i) s.command (frame.param 1) (frame.param 2) else s.axes i } := by
  unfold configureLineAxes
  simp only [decide_eq_true_eq]

/-- `ProcessTask` publishes the request of the frame, and nothing else of it matters. -/
theorem processFrame_eq (s : Machine K) (frame : LinuxFrame) : processFrame s frame = publish frame.request s := by
  unfold processFrame LinuxFrame.request
  by_cases hshort : frame.paramDataLength < (CmdCode.ofIndex (frame.u16 0)).paramSize
  · rw [if_pos hshort, if_pos hshort]
    rfl
  · rw [if_neg hshort, if_neg hshort]
    unfold decodeFrame LinuxFrame.decoded
    cases hcode : CmdCode.ofIndex (frame.u16 0)
    case setLine =>
      dsimp only
      rw [configureLineAxes_eq]
      rfl
    all_goals rfl

/-! ### The system -/

/-- The receiving side and the shared state of the motion module. -/
structure Downlink (K : Type) where
  rx : Receiver
  machine : Machine K

/-- `ProcessTask`: none while it waits for the semaphore, and where the read leaves the storage of the ring or
processing the frame leaves the axes. -/
def processTask (d : Downlink K) : Option (Downlink K) :=
  if d.rx.sem = 0 then none
  else
    let rx := { d.rx with sem := d.rx.sem - 1 }
    match readRingbuff d.rx.ring with
    | none => none
    | some (none, _) => some { d with rx := rx }
    | some (some frame, ring) =>
      (processFrame d.machine frame).map fun s => { rx := { rx with ring := ring }, machine := s }

inductive DownlinkEvent (K : Type)
  | receive (data : List UInt8)
  | process
  | motion (e : Event K)

/-- One receive callback, one call of `ProcessTask`, or one call in the motion thread. -/
inductive DownlinkStep : Downlink K → DownlinkEvent K → Downlink K → Prop
  | receive {d : Downlink K} {data : List UInt8} {rx : Receiver} (h : onReceiveLinux d.rx data = some rx) :
      DownlinkStep d (.receive data) { d with rx := rx }
  | process {d d' : Downlink K} (h : processTask d = some d') : DownlinkStep d .process d'
  | handle {d : Downlink K} {t : Machine K} {j : Bool} (h : emcmotCommandHandler d.machine j = some t) :
      DownlinkStep d (.motion (.handle j)) { d with machine := t }
  | cycle {d : Downlink K} {t : Machine K} {inp : Inputs} {fuel : Nat}
      (h : emcmotController d.machine inp motionThreadPeriod fuel = some t) :
      DownlinkStep d (.motion (.cycle inp)) { d with machine := t }

/-- The system before the first byte. -/
def startDownlink (numAxes : Int) : Downlink K := { rx := startLink.rx, machine := initMachine numAxes }

/-- The states a history of received buffers can lead to. -/
def DownlinkReachable (numAxes : Int) (d : Downlink K) : Prop := Lib.Reaches DownlinkStep (startDownlink numAxes) d

/-- The next frame `ProcessTask` takes is the given one. -/
def Downlink.Takes (d : Downlink K) (p : Packet) : Prop :=
  d.rx.sem ≠ 0 ∧ ∃ ring frame, readRingbuff d.rx.ring = some (some frame, ring) ∧ frame.packet = p

/-- The machine of a system the network reaches is one the network reaches. -/
theorem DownlinkReachable.machine {numAxes : Int} {d : Downlink K} (h : DownlinkReachable numAxes d) :
    NetReachable numAxes d.machine := by
  refine Lib.Reaches.invariant (I := fun d : Downlink K => NetReachable numAxes d.machine) ?_ h (Lib.Reaches.refl _)
  intro d e d' hd hstep
  cases hstep with
  | receive h => exact hd
  | process h =>
    unfold processTask at h
    by_cases hsem : d.rx.sem = 0
    · rw [if_pos hsem] at h
      cases h
    · rw [if_neg hsem] at h
      cases hread : readRingbuff d.rx.ring with
      | none =>
        rw [hread] at h
        cases h
      | some result =>
        obtain ⟨frame, ring⟩ := result
        rw [hread] at h
        cases frame with
        | none =>
          cases h
          exact hd
        | some frame =>
          obtain ⟨s, hs, rfl⟩ := Option.map_eq_some_iff.1 h
          exact hd.tail ⟨.frame hs, trivial⟩
  | handle h => exact hd.tail ⟨.handle h, trivial⟩
  | cycle h => exact hd.tail ⟨.cycle h, trivial⟩

end SoemMotion
