import SoemMotion.Command

/-!
# The network interface

The downlink of `hpsocket.c`: `AnalyseData` turns the bytes of one receive callback into a frame and puts it into the
receive ring, `ProcessTask` takes a frame from the ring and publishes its command.  Reads past the received bytes,
writes past the payload and accesses to the ring outside `buffer_storage` are `none`.
-/

namespace SoemMotion

variable {K : Type} [Arith K]

/-! ### Frames -/

/-- `linux_frame_t`. -/
structure LinuxFrame where
  header : Nat
  dataLength : Nat
  payload : Fin 128 → UInt8
  checksum : Nat

instance neZeroPayload : NeZero 128 := ⟨by decide⟩

/-- The byte of the payload at `i`, zero past its end. -/
def LinuxFrame.byte (frame : LinuxFrame) (i : Nat) : Nat := if h : i < 128 then (frame.payload ⟨i, h⟩).toNat else 0

/-- The little-endian `uint16_t` at `i`. -/
def LinuxFrame.u16 (frame : LinuxFrame) (i : Nat) : Nat := frame.byte i + 256 * frame.byte (i + 1)

/-- The little-endian `int32_t` at `i`. -/
def LinuxFrame.i32 (frame : LinuxFrame) (i : Nat) : Int :=
  let n : Int := ((frame.u16 i + 65536 * frame.u16 (i + 2) : Nat) : Int)
  if n < 2 ^ 31 then n else n - 2 ^ 32

/-- The `k`-th `int32_t` of the parameter struct. -/
def LinuxFrame.param (frame : LinuxFrame) (k : Nat) : Int := frame.i32 (4 + 4 * k)

/-- `param_data_length`: the difference is computed in `int` and then taken as a `size_t`. -/
def LinuxFrame.paramDataLength (frame : LinuxFrame) : Nat :=
  (((frame.dataLength : Int) - 4) % 2 ^ 64).toNat

/-- The command codes `ProcessTask` knows. -/
def CmdCode.ofIndex : Nat → CmdCode
  | 1 => .downloadsConfig
  | 2 => .axisEnable
  | 3 => .axisDisable
  | 4 => .motionEnable
  | 5 => .motionDisable
  | 9 => .jogCont
  | 10 => .jogIncr
  | 11 => .jogAbs
  | 12 => .jogAbort
  | 13 => .setLine
  | 15 => .setFree
  | 16 => .setCoord
  | _ => .unknown

/-- The size in bytes of the parameter struct of a command. -/
def CmdCode.paramSize : CmdCode → Nat
  | .downloadsConfig => 56
  | .jogCont => 16
  | .jogIncr => 24
  | .jogAbs => 20
  | .setLine => 48
  | _ => 4

/-! ### ProcessTask -/

/-- Publish a command: its code, the next number and the axis. -/
def Command.publish (cmd : Command K) (code : CmdCode) (axisIndex : Nat) : Command K :=
  { cmd with command := code, commandNum := Arith.i32 K (cmd.commandNum + 1), axis := axisIndex }

/-- The axis fields a jog frame and a line frame overwrite: the request from the frame, the limits from the last
configuration frame. -/
def configureAxis (axis : Axis K) (cmd : Command K) (vel acc : Int) : Axis K :=
  { axis with
    accCmd := acc, velCmd := vel, accLimit := cmd.maxacc, velLimit := cmd.maxvel
    maxPosLimit := cmd.maxLimit, minPosLimit := cmd.minLimit
    maxJogLimit := cmd.maxLimit, minJogLimit := cmd.minLimit }

/-- The common part of the three jog frames: the axis, then the command with `dir` and `offset`. -/
def publishJog (s : Machine K) (frame : LinuxFrame) (code : CmdCode) (acc : Int) (cmd : Command K) :
    Option (Machine K) :=
  (s.writeAxis (frame.u16 2) fun axis => configureAxis axis s.command (frame.param 0) acc).map fun s =>
    { s with command := cmd.publish code (frame.u16 2) }

/-- The axes a line frame selects. -/
def configureLineAxes (s : Machine K) (frame : LinuxFrame) : Machine K :=
  { s with
    axes := fun i => if frame.param (9 + i.val) = 1 then
        configureAxis (s.axes i) s.command (frame.param 1) (frame.param 2) else s.axes i }

/-- The command block of a line frame. -/
def lineCommand (cmd : Command K) (frame : LinuxFrame) : Command K :=
  { cmd.publish .setLine (frame.u16 2) with
    pos := { cmd.pos with tran := ⟨(frame.param 6 : K), (frame.param 7 : K), (frame.param 8 : K)⟩ }
    iniMaxvel := frame.param 0, vel := frame.param 1, acc := frame.param 2, motionType := 2
    dir := frame.param 5, ref := frame.param 4, spindle := frame.u16 2 }

/-- The command block of a configuration frame. -/
def configCommand (cmd : Command K) (frame : LinuxFrame) : Command K :=
  { cmd.publish .downloadsConfig (frame.u16 2) with
    maxacc := frame.param 8, maxvel := frame.param 7, acc := frame.param 5, vel := frame.param 2
    maxAxisScale := (frame.param 10 : K), maxLimit := frame.param 12, minLimit := frame.param 13 }

/-- The commands without parameters of their own. -/
def publishPlain (s : Machine K) (frame : LinuxFrame) (code : CmdCode) : Machine K :=
  { s with command := s.command.publish code (frame.u16 2) }

/-- What `ProcessTask` does with a frame it has read, once its length has been checked. -/
def decodeFrame (s : Machine K) (frame : LinuxFrame) : Option (Machine K) :=
  match CmdCode.ofIndex (frame.u16 0) with
  | .downloadsConfig => some { s with command := configCommand s.command frame }
  | .axisEnable => some { publishPlain s frame .axisEnable with hal := { s.hal with enable := true } }
  | .axisDisable => some { publishPlain s frame .axisDisable with hal := { s.hal with enable := false } }
  | .motionEnable => some (publishPlain s frame .motionEnable)
  | .motionDisable => some (publishPlain s frame .motionDisable)
  | .jogCont => publishJog s frame .jogCont (frame.param 1) { s.command with dir := frame.param 3 }
  | .jogIncr =>
    publishJog s frame .jogIncr (frame.param 2)
      { s.command with dir := frame.param 5, offset := (frame.param 4 : K) }
  | .jogAbs => publishJog s frame .jogAbs (frame.param 2) { s.command with offset := (frame.param 4 : K) }
  | .jogAbort => some (publishPlain s frame .jogAbort)
  | .setLine =>
    some { configureLineAxes s frame with command := lineCommand s.command frame }
  | .setFree => some (publishPlain s frame .setFree)
  | .setCoord => some (publishPlain s frame .setCoord)
  -- a code without a case leaves even the command number as it was
  | _ => some s

/-- `ProcessTask` on the frame it has read. -/
def processFrame (s : Machine K) (frame : LinuxFrame) : Option (Machine K) :=
  if frame.paramDataLength < (CmdCode.ofIndex (frame.u16 0)).paramSize then some s else decodeFrame s frame

/-! ### The receive ring -/

/-- `BUFFER_NUM`. -/
def bufferNum : Nat := 64

/-- `BUFFER_SIZE`. -/
def bufferSize : Nat := 128

/-- The slots of the ring inside `buffer_storage`, which has `BUFFER_NUM * BUFFER_SIZE` bytes: a slot takes
`BUFFER_SIZE*2`, so there are only half as many as `init_socket_comm_buffers` gives the ring. -/
def storageSlots : Nat := bufferNum * bufferSize / (bufferSize * 2)

/-- `RING_BUFF_t`, its slots taken as separate cells. -/
structure RingBuff where
  slots : Nat → LinuxFrame
  head : Nat
  tail : Nat
  length : Nat

/-- The ring with the frame in the slot at its tail. -/
def RingBuff.put (ring : RingBuff) (frame : LinuxFrame) : RingBuff :=
  { ring with
    slots := fun i => if i = ring.tail then frame else ring.slots i
    tail := (ring.tail + 1) % bufferNum, length := ring.length + 1 }

/-- The ring without the frame in the slot at its head. -/
def RingBuff.drop (ring : RingBuff) : RingBuff :=
  { ring with head := (ring.head + 1) % bufferNum, length := ring.length - 1 }

/-- Whether the frame has been stored, and the ring.  The slots are not checked against the storage. -/
def writeRingbuff (ring : RingBuff) (frame : LinuxFrame) : Option (Bool × RingBuff) :=
  if bufferNum ≤ ring.length then some (false, ring)
  else if ring.tail < storageSlots then some (true, ring.put frame) else none

/-- The frame that has been read, if there is one, and the ring. -/
def readRingbuff (ring : RingBuff) : Option (Option LinuxFrame × RingBuff) :=
  if ring.length = 0 then some (none, ring)
  else if ring.head < storageSlots then some (some (ring.slots ring.head), ring.drop) else none

/-! ### AnalyseData -/

/-- The receiving side: the ring, the semaphore that counts its frames and the frame under construction. -/
structure Receiver where
  ring : RingBuff
  sem : Nat
  currentFrame : LinuxFrame

/-- The little-endian `uint16_t` of the received bytes at `i`. -/
def readU16 (data : List UInt8) (i : Nat) : Option Nat := do
  let a ← data[i]?
  let b ← data[i + 1]?
  return a.toNat + 256 * b.toNat

/-- The little-endian `uint32_t` of the received bytes at `i`. -/
def readU32 (data : List UInt8) (i : Nat) : Option Nat := do
  let a ← readU16 data i
  let b ← readU16 data (i + 2)
  return a + 65536 * b

/-- The `n` received bytes from `i`. -/
def readBytes (data : List UInt8) (i n : Nat) : Option (List UInt8) :=
  if i + n ≤ data.length then some ((data.drop i).take n) else none

def sumBytes (bytes : List UInt8) : Nat := (bytes.map UInt8.toNat).sum

/-- The frame `AnalyseData` makes of the received bytes.  A wrong header, length or checksum is reported but not
acted upon, and the bytes of the payload past `data_length` are those of the frame before. -/
def parseFrame (old : LinuxFrame) (data : List UInt8) : Option LinuxFrame := do
  let header ← readU32 data 0
  let dataLength ← readU16 data 4
  let summed ← readBytes data 4 dataLength
  let _received ← readU32 data (6 + dataLength)
  let bytes ← readBytes data 6 dataLength
  if 128 < dataLength then none
  else return {
    header := header, dataLength := dataLength, checksum := sumBytes summed
    payload := fun i => (bytes[i.val]?).getD (old.payload i) }

/-- `AnalyseData`: a frame that finds the ring full is dropped, the semaphore is posted all the same. -/
def analyseData (rx : Receiver) (data : List UInt8) : Option Receiver := do
  let frame ← parseFrame rx.currentFrame data
  let (_, ring) ← writeRingbuff rx.ring frame
  return { ring := ring, sem := rx.sem + 1, currentFrame := frame }

/-- `OnReceiveLinux`. -/
def onReceiveLinux (rx : Receiver) (data : List UInt8) : Option Receiver := analyseData rx data

end SoemMotion
