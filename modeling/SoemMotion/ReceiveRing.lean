import Mathlib.Order.BourbakiWitt
import Mathlib.Order.CompletePartialOrder
import SoemMotion.Lib.Machine
import SoemMotion.StreamReassembly

/-!
# The receive ring with its counters

`write_ringbuff` and `read_ringbuff` on the `RING_BUFF_t` that `init_socket_comm_buffers` sets up, its counters as
narrow as they are there.  The narrow ring is the wide one of the rest of the development (`TcpRing.wide`), and it is a
queue of at most `BUFFER_NUM` frames (`tcpRing_fifo`).  Only half of its slots lie inside `buffer_storage`
(`access_within_iff`).
-/

namespace SoemMotion

/-! ### The header -/

/-- The fields of `RING_BUFF_t` that are not the storage. -/
structure RingHeader where
  head : UInt8
  tail : UInt8
  length : UInt8
  buffNum : UInt32
  buffByte : UInt32
deriving DecidableEq

/-- The header that `init_socket_comm_buffers` writes. -/
def initSocketCommBuffers : RingHeader where
  head := 0
  tail := 0
  length := 0
  buffNum := UInt32.ofNat bufferNum
  buffByte := UInt32.ofNat (bufferSize * 2)

/-- `sizeof(linux_frame_t)`, which is packed. -/
def linuxFrameSize : Nat := 4 + 2 + 128 + 4

/-- Where `write_ringbuff` writes, from the start of the storage. -/
def RingHeader.writeOffset (r : RingHeader) : Nat := (r.tail.toUInt32 * r.buffByte).toNat

/-- Where `read_ringbuff` reads, from the start of the storage. -/
def RingHeader.readOffset (r : RingHeader) : Nat := (r.head.toUInt32 * r.buffByte).toNat

/-- A written frame is accounted for. -/
def RingHeader.advanceTail (r : RingHeader) : RingHeader :=
  { r with tail := ((r.tail.toUInt32 + 1) % r.buffNum).toUInt8, length := r.length + 1 }

/-- A read frame is accounted for. -/
def RingHeader.advanceHead (r : RingHeader) : RingHeader :=
  { r with head := ((r.head.toUInt32 + 1) % r.buffNum).toUInt8, length := r.length - 1 }

/-- The tests that `write_ringbuff` makes before it writes. -/
def RingHeader.canWrite (r : RingHeader) : Bool :=
  !decide (r.buffNum ≤ r.length.toUInt32) && !decide (r.buffByte.toNat < linuxFrameSize)

/-- The tests that `read_ringbuff` makes before it reads. -/
def RingHeader.canRead (r : RingHeader) : Bool :=
  !decide (r.length = 0) && !decide ((r.buffNum * r.buffByte).toNat ≤ r.readOffset)

/-! ### The ring -/

/-- A `RING_BUFF_t`, its slots taken as separate cells. -/
structure TcpRing where
  header : RingHeader
  slots : Nat → LinuxFrame

/-- `return -1` of a function that returns an `uint8_t`. -/
def ringError : UInt8 := 255

/-- `write_ringbuff`. -/
def TcpRing.write (ring : TcpRing) (frame : LinuxFrame) : UInt8 × TcpRing :=
  if ring.header.canWrite then
    (0, { header := ring.header.advanceTail
          slots := fun i => if i = ring.header.tail.toNat then frame else ring.slots i })
  else (ringError, ring)

/-- `read_ringbuff`, with the frame it has copied. -/
def TcpRing.read (ring : TcpRing) : (UInt8 × Option LinuxFrame) × TcpRing :=
  if ring.header.canRead then
    ((0, some (ring.slots ring.header.head.toNat)), { ring with header := ring.header.advanceHead })
  else ((ringError, none), ring)

inductive RingCall
  | write (frame : LinuxFrame)
  | read

inductive RingAnswer
  | wrote (status : UInt8)
  | read (status : UInt8) (frame : Option LinuxFrame)

def RingAnswer.status : RingAnswer → UInt8
  | .wrote status => status
  | .read status _ => status

def RingCall.apply : RingCall → TcpRing → RingAnswer × TcpRing
  | .write frame, ring => (.wrote (ring.write frame).1, (ring.write frame).2)
  | .read, ring => (.read ring.read.1.1 ring.read.1.2, ring.read.2)

/-- The ring before the first frame. -/
def initTcpRing (slots : Nat → LinuxFrame) : TcpRing := { header := initSocketCommBuffers, slots := slots }

/-- The same ring with counters of any size. -/
def TcpRing.wide (ring : TcpRing) : RingBuff where
  slots := ring.slots
  head := ring.header.head.toNat
  tail := ring.header.tail.toNat
  length := ring.header.length.toNat

/-- The ring as `init_socket_comm_buffers` sets it up, its counters in step. -/
structure TcpRing.WF (ring : TcpRing) : Prop where
  buffNum : ring.header.buffNum = initSocketCommBuffers.buffNum
  buffByte : ring.header.buffByte = initSocketCommBuffers.buffByte
  wide : ring.wide.WF

section Ring

variable {ring : TcpRing}

theorem initTcpRing_wf (slots : Nat → LinuxFrame) : (initTcpRing slots).WF :=
  ⟨rfl, rfl, Nat.zero_le _, (by decide : (0 : Nat) < bufferNum), rfl⟩

/-- A counter that goes round `BUFFER_NUM`. -/
theorem next_toNat (n : UInt8) : ((n.toUInt32 + 1) % initSocketCommBuffers.buffNum).toUInt8.toNat =
    (n.toNat + 1) % bufferNum := by
  have hn := n.toNat_lt
  have hnum : initSocketCommBuffers.buffNum.toNat = 64 := rfl
  rw [UInt32.toNat_toUInt8, UInt32.toNat_mod, UInt32.toNat_add, UInt8.toNat_toUInt32, hnum, bufferNum]
  show (n.toNat + 1) % 2 ^ 32 % 64 % 2 ^ 8 = (n.toNat + 1) % 64
  omega

/-- A slot starts at its number times the stride. -/
theorem offset_eq (n : UInt8) : (n.toUInt32 * initSocketCommBuffers.buffByte).toNat = n.toNat * (bufferSize * 2) := by
  have hn := n.toNat_lt
  have hbyte : initSocketCommBuffers.buffByte.toNat = 256 := rfl
  rw [UInt32.toNat_mul, UInt8.toNat_toUInt32, hbyte]
  show n.toNat * 256 % 2 ^ 32 = n.toNat * 256
  omega

theorem TcpRing.WF.writeOffset (h : ring.WF) : ring.header.writeOffset = ring.header.tail.toNat * (bufferSize * 2) := by
  unfold RingHeader.writeOffset
  rw [h.buffByte, offset_eq]

theorem TcpRing.WF.readOffset (h : ring.WF) : ring.header.readOffset = ring.header.head.toNat * (bufferSize * 2) := by
  unfold RingHeader.readOffset
  rw [h.buffByte, offset_eq]

/-- Only a full ring refuses a frame: the size of a frame is below the stride. -/
theorem TcpRing.WF.canWrite_iff (h : ring.WF) : ring.header.canWrite = true ↔ ring.header.length.toNat < bufferNum := by
  have hnum : initSocketCommBuffers.buffNum.toNat = 64 := rfl
  have hfits : ¬ initSocketCommBuffers.buffByte.toNat < linuxFrameSize := by decide
  unfold RingHeader.canWrite
  rw [h.buffNum, h.buffByte, decide_eq_false hfits, Bool.not_false, Bool.and_true, Bool.not_eq_true',
    decide_eq_false_iff_not, UInt32.le_iff_toNat_le, UInt8.toNat_toUInt32, hnum, bufferNum]
  omega

/-- Only an empty ring has no frame: the address of a slot is below the end of the last one. -/
theorem TcpRing.WF.canRead_iff (h : ring.WF) : ring.header.canRead = true ↔ ring.header.length.toNat ≠ 0 := by
  have hhead : ring.header.head.toNat < 64 := h.wide.head_lt
  have hend : (initSocketCommBuffers.buffNum * initSocketCommBuffers.buffByte).toNat = 64 * (bufferSize * 2) := rfl
  have hin : ¬ (ring.header.buffNum * ring.header.buffByte).toNat ≤ ring.header.readOffset := by
    rw [h.readOffset, h.buffNum, h.buffByte, hend, not_le]
    exact Nat.mul_lt_mul_of_pos_right hhead (by decide)
  unfold RingHeader.canRead
  rw [decide_eq_false hin, Bool.not_false, Bool.and_true, Bool.not_eq_true', decide_eq_false_iff_not, ← UInt8.toNat_inj]
  exact Iff.rfl

/-! ### Narrow and wide -/

/-- A refused frame leaves the ring as it is. -/
theorem write_full (h : ring.WF) (hfull : bufferNum ≤ ring.header.length.toNat) (frame : LinuxFrame) :
    ring.write frame = (ringError, ring) :=
  if_neg fun hcan => absurd (h.canWrite_iff.1 hcan) (not_lt.2 hfull)

/-- A frame that is taken is put into the wide ring too. -/
theorem write_room (h : ring.WF) (hroom : ring.header.length.toNat < bufferNum) (frame : LinuxFrame) :
    (ring.write frame).1 = 0 ∧ (ring.write frame).2.WF ∧ (ring.write frame).2.wide = ring.wide.put frame := by
  have heq : ring.write frame = (0, { header := ring.header.advanceTail
                                      slots := fun i => if i = ring.header.tail.toNat then frame else ring.slots i }) :=
    if_pos (h.canWrite_iff.2 hroom)
  have hlength : (ring.header.length + 1).toNat = ring.header.length.toNat + 1 := by
    unfold bufferNum at hroom
    rw [UInt8.toNat_add]
    show (ring.header.length.toNat + 1) % 2 ^ 8 = ring.header.length.toNat + 1
    omega
  have htail : ring.header.advanceTail.tail.toNat = (ring.header.tail.toNat + 1) % bufferNum := by
    unfold RingHeader.advanceTail
    rw [h.buffNum]
    exact next_toNat _
  have hwide : (ring.write frame).2.wide = ring.wide.put frame := by
    rw [heq]
    unfold RingBuff.put TcpRing.wide
    dsimp only
    rw [htail, show ring.header.advanceTail.length.toNat = _ from hlength]
    rfl
  refine ⟨by rw [heq], ⟨?_, ?_, ?_⟩, hwide⟩
  · rw [heq]
    exact h.buffNum
  · rw [heq]
    exact h.buffByte
  · rw [hwide]
    exact (h.wide.put hroom frame).1

theorem read_empty (h : ring.WF) (hempty : ring.header.length.toNat = 0) : ring.read = ((ringError, none), ring) :=
  if_neg fun hcan => absurd hempty (h.canRead_iff.1 hcan)

/-- A frame that is read is taken from the wide ring too. -/
theorem read_some (h : ring.WF) (hsome : ring.header.length.toNat ≠ 0) :
    ring.read.1 = (0, some (ring.slots ring.header.head.toNat)) ∧ ring.read.2.WF ∧
      ring.read.2.wide = ring.wide.drop := by
  have heq : ring.read = ((0, some (ring.slots ring.header.head.toNat)),
      { ring with header := ring.header.advanceHead }) :=
    if_pos (h.canRead_iff.2 hsome)
  have hlength : (ring.header.length - 1).toNat = ring.header.length.toNat - 1 :=
    UInt8.toNat_sub_of_le _ _ (by
      rw [UInt8.le_iff_toNat_le]
      show 1 ≤ ring.header.length.toNat
      omega)
  have hhead : ring.header.advanceHead.head.toNat = (ring.header.head.toNat + 1) % bufferNum := by
    unfold RingHeader.advanceHead
    rw [h.buffNum]
    exact next_toNat _
  have hwide : ring.read.2.wide = ring.wide.drop := by
    rw [heq]
    unfold RingBuff.drop TcpRing.wide
    dsimp only
    rw [hhead, show ring.header.advanceHead.length.toNat = _ from hlength]
    rfl
  refine ⟨by rw [heq], ⟨?_, ?_, ?_⟩, hwide⟩
  · rw [heq]
    exact h.buffNum
  · rw [heq]
    exact h.buffByte
  · rw [hwide]
    exact (h.wide.drop hsome).1

/-! ### A queue of frames -/

/-- What a call means for a queue of at most `BUFFER_NUM` frames. -/
def RingCall.onQueue : RingCall → List LinuxFrame → RingAnswer × List LinuxFrame
  | .write frame, q => if bufferNum ≤ q.length then (.wrote ringError, q) else (.wrote 0, q ++ [frame])
  | .read, [] => (.read ringError none, [])
  | .read, frame :: q => (.read 0 (some frame), q)

/-- The frames in the ring, oldest first. -/
def TcpRing.contents (ring : TcpRing) : List LinuxFrame := ring.wide.contents

theorem contents_length (ring : TcpRing) : ring.contents.length = ring.header.length.toNat := by
  unfold TcpRing.contents RingBuff.contents
  rw [List.length_map, List.length_range]
  rfl

/-- The ring holds the frames of the queue. -/
def TcpRing.Holds (ring : TcpRing) (q : List LinuxFrame) : Prop := ring.WF ∧ ring.contents = q

theorem RingCall.apply_holds (c : RingCall) {q : List LinuxFrame} (h : ring.Holds q) :
    (c.apply ring).1 = (c.onQueue q).1 ∧ (c.apply ring).2.Holds (c.onQueue q).2 := by
  obtain ⟨hwf, rfl⟩ := h
  have hlength := contents_length ring
  cases c with
  | write frame =>
    unfold RingCall.apply RingCall.onQueue
    by_cases hfull : bufferNum ≤ ring.header.length.toNat
    · dsimp only
      rw [write_full hwf hfull frame, if_pos (by rw [hlength]; exact hfull)]
      exact ⟨rfl, hwf, rfl⟩
    · obtain ⟨hstatus, hwf', hwide⟩ := write_room hwf (not_le.1 hfull) frame
      dsimp only
      rw [hstatus, if_neg (by rw [hlength]; exact hfull)]
      refine ⟨rfl, hwf', ?_⟩
      unfold TcpRing.contents
      rw [hwide]
      exact (hwf.wide.put (not_le.1 hfull) frame).2
  | read =>
    by_cases hempty : ring.header.length.toNat = 0
    · have hnil : ring.contents = [] := List.length_eq_zero_iff.1 (hlength.trans hempty)
      unfold RingCall.apply
      dsimp only
      rw [read_empty hwf hempty, hnil]
      exact ⟨rfl, hwf, hnil⟩
    · obtain ⟨hanswer, hwf', hwide⟩ := read_some hwf hempty
      have hframes : ring.contents = ring.slots ring.header.head.toNat :: ring.read.2.contents := by
        unfold TcpRing.contents
        rw [hwide]
        exact (hwf.wide.drop hempty).2
      unfold RingCall.apply
      dsimp only
      rw [hanswer, hframes]
      exact ⟨rfl, hwf', rfl⟩

theorem write_refused_iff (h : ring.WF) (frame : LinuxFrame) :
    (ring.write frame).1 ≠ 0 ↔ ring.contents.length = bufferNum := by
  rw [contents_length]
  have hle : ring.header.length.toNat ≤ bufferNum := h.wide.length_le
  by_cases hfull : bufferNum ≤ ring.header.length.toNat
  · rw [write_full h hfull frame]
    exact ⟨fun _ => le_antisymm hle hfull, fun _ => (by decide : ringError ≠ 0)⟩
  · obtain ⟨hstatus, -, -⟩ := write_room h (not_le.1 hfull) frame
    exact ⟨fun hno => absurd hstatus hno, fun heq => absurd heq.ge hfull⟩

theorem read_refused_iff (h : ring.WF) : ring.read.1.1 ≠ 0 ↔ ring.contents = [] := by
  rw [← List.length_eq_zero_iff, contents_length]
  by_cases hempty : ring.header.length.toNat = 0
  · rw [read_empty h hempty]
    exact ⟨fun _ => hempty, fun _ => (by decide : ringError ≠ 0)⟩
  · obtain ⟨hanswer, -, -⟩ := read_some h hempty
    rw [hanswer]
    exact ⟨fun hno => absurd rfl hno, fun h => absurd h hempty⟩

/-! ### Counters -/

/-- The answer of a write that has stored a frame. -/
def RingAnswer.stored : RingAnswer → Bool
  | .wrote status => status == 0
  | .read _ _ => false

/-- The answer of a read that has taken a frame. -/
def RingAnswer.taken : RingAnswer → Bool
  | .wrote _ => false
  | .read status _ => status == 0

/-- What one call does to the counters. -/
theorem RingCall.apply_counters (c : RingCall) (h : ring.WF) :
    (c.apply ring).2.WF ∧
    (c.apply ring).2.header.length.toNat + (c.apply ring).1.taken.toNat =
      ring.header.length.toNat + (c.apply ring).1.stored.toNat ∧
    (c.apply ring).2.header.tail.toNat = (ring.header.tail.toNat + (c.apply ring).1.stored.toNat) % bufferNum ∧
    (c.apply ring).2.header.head.toNat = (ring.header.head.toNat + (c.apply ring).1.taken.toNat) % bufferNum ∧
    ((c.apply ring).1.status ≠ 0 → (c.apply ring).2 = ring) := by
  have htail : ring.header.tail.toNat % bufferNum = ring.header.tail.toNat := by
    rw [show ring.header.tail.toNat = _ from h.wide.tail_eq, Nat.mod_mod]
  have hhead : ring.header.head.toNat % bufferNum = ring.header.head.toNat := Nat.mod_eq_of_lt h.wide.head_lt
  -- each call either finds the ring full or empty, or moves one frame
  cases c with
  | write frame =>
    by_cases hfull : bufferNum ≤ ring.header.length.toNat
    · have heq : (RingCall.write frame).apply ring = (.wrote ringError, ring) := by
        unfold RingCall.apply
        dsimp only
        rw [write_full h hfull frame]
      rw [heq]
      exact ⟨h, rfl, htail.symm, hhead.symm, fun _ => rfl⟩
    · obtain ⟨hstatus, hwf', hwide⟩ := write_room h (not_le.1 hfull) frame
      have heq : (RingCall.write frame).apply ring = (.wrote 0, (ring.write frame).2) := by
        unfold RingCall.apply
        dsimp only
        rw [hstatus]
      rw [heq]
      refine ⟨hwf', congrArg RingBuff.length hwide, congrArg RingBuff.tail hwide, ?_, fun hno => absurd rfl hno⟩
      exact (congrArg RingBuff.head hwide).trans hhead.symm
  | read =>
    by_cases hempty : ring.header.length.toNat = 0
    · have heq : RingCall.read.apply ring = (.read ringError none, ring) := by
        unfold RingCall.apply
        dsimp only
        rw [read_empty h hempty]
      rw [heq]
      exact ⟨h, rfl, htail.symm, hhead.symm, fun _ => rfl⟩
    · obtain ⟨hanswer, hwf', hwide⟩ := read_some h hempty
      have heq : RingCall.read.apply ring = (.read 0 (some (ring.slots ring.header.head.toNat)), ring.read.2) := by
        unfold RingCall.apply
        dsimp only
        rw [hanswer]
      have hlength : ring.read.2.header.length.toNat = ring.header.length.toNat - 1 := congrArg RingBuff.length hwide
      rw [heq]
      refine ⟨hwf', ?_, ?_, congrArg RingBuff.head hwide, fun hno => absurd rfl hno⟩
      · show ring.read.2.header.length.toNat + 1 = ring.header.length.toNat + 0
        omega
      · exact (congrArg RingBuff.tail hwide).trans htail.symm

end Ring

/-! ### Runs -/

/-- The answers to a list of calls, and the ring after them, from the ring before the first frame. -/
def ringRun (slots : Nat → LinuxFrame) (calls : List RingCall) : List RingAnswer × TcpRing :=
  Lib.answers RingCall.apply calls (initTcpRing slots)

theorem ringRun_concat (slots : Nat → LinuxFrame) (calls : List RingCall) (c : RingCall) :
    ringRun slots (calls ++ [c]) =
    ((ringRun slots calls).1 ++ [(c.apply (ringRun slots calls).2).1], (c.apply (ringRun slots calls).2).2) :=
  Lib.answers_concat RingCall.apply calls c (initTcpRing slots)

theorem countP_concat {α : Type} (p : α → Bool) (as : List α) (a : α) :
    (as ++ [a]).countP p = as.countP p + (p a).toNat := by
  rw [List.countP_append, List.countP_singleton]
  cases p a <;> rfl

/-- The counters tell the frames stored and taken so far. -/
theorem ringRun_counters (slots : Nat → LinuxFrame) (calls : List RingCall) :
    (ringRun slots calls).2.WF ∧
    (ringRun slots calls).2.header.length.toNat + (ringRun slots calls).1.countP RingAnswer.taken =
      (ringRun slots calls).1.countP RingAnswer.stored ∧
    (ringRun slots calls).2.header.tail.toNat = (ringRun slots calls).1.countP RingAnswer.stored % bufferNum ∧
    (ringRun slots calls).2.header.head.toNat = (ringRun slots calls).1.countP RingAnswer.taken % bufferNum := by
  induction calls using List.reverseRecOn with
  | nil => exact ⟨initTcpRing_wf slots, rfl, rfl, rfl⟩
  | append_singleton calls c ih =>
    obtain ⟨hwf, hlength, htail, hhead⟩ := ih
    obtain ⟨hwf', hlength', htail', hhead', -⟩ := c.apply_counters hwf
    rw [ringRun_concat]
    simp only [countP_concat]
    refine ⟨hwf', by omega, ?_, ?_⟩
    · rw [htail', htail, Nat.mod_add_mod]
    · rw [hhead', hhead, Nat.mod_add_mod]

/-- In every run the ring answers as a queue of at most `BUFFER_NUM` frames would; it refuses a frame when it holds
that many, has none when it holds none, and its counters are those of the frames stored and taken. -/
theorem tcpRing_fifo (slots : Nat → LinuxFrame) (calls : List RingCall) :
    (ringRun slots calls).1 = (Lib.answers RingCall.onQueue calls []).1 ∧
    (ringRun slots calls).2.contents = (Lib.answers RingCall.onQueue calls []).2 ∧
    (∀ frame, ((ringRun slots calls).2.write frame).1 ≠ 0 ↔ (ringRun slots calls).2.contents.length = bufferNum) ∧
    ((ringRun slots calls).2.read.1.1 ≠ 0 ↔ (ringRun slots calls).2.contents = []) ∧
    (∀ c : RingCall, (c.apply (ringRun slots calls).2).1.status ≠ 0 → (c.apply (ringRun slots calls).2).2 =
    (ringRun slots calls).2) ∧
    ((ringRun slots calls).2.header.length.toNat : Int) =
      (ringRun slots calls).1.countP RingAnswer.stored - (ringRun slots calls).1.countP RingAnswer.taken ∧
    (ringRun slots calls).2.header.tail.toNat =
      ((ringRun slots calls).2.header.head.toNat + (ringRun slots calls).2.header.length.toNat) % bufferNum := by
  have hinit : (initTcpRing slots).Holds [] := ⟨initTcpRing_wf slots, rfl⟩
  obtain ⟨hanswers, -, hcontents⟩ := Lib.answers_simulate (fun c ring q h => RingCall.apply_holds c h) calls hinit
  obtain ⟨hwf, hcount, -, -⟩ := ringRun_counters slots calls
  exact ⟨hanswers, hcontents, write_refused_iff hwf, read_refused_iff hwf, fun c => (c.apply_counters hwf).2.2.2.2,
    by omega, hwf.wide.tail_eq⟩

/-! ### The storage -/

/-- A frame at this offset lies inside `buffer_storage`. -/
def WithinStorage (offset : Nat) : Prop := offset + linuxFrameSize ≤ bufferNum * bufferSize

/-- The offset of the frame that the call copies. -/
def RingCall.access : RingCall → TcpRing → Option Nat
  | .write _, ring => if ring.header.canWrite then some ring.header.writeOffset else none
  | .read, ring => if ring.header.canRead then some ring.header.readOffset else none

def RingCall.isWrite : RingCall → Bool
  | .write _ => true
  | .read => false

/-- The slots in the first half of the ring are those inside the storage. -/
theorem withinStorage_iff (n : Nat) : WithinStorage (n * (bufferSize * 2)) ↔ n < 32 := by
  unfold WithinStorage bufferSize linuxFrameSize bufferNum
  omega

variable {ring : TcpRing}

/-- Inside the storage, `write_ringbuff` is that of the wide ring. -/
theorem write_wide (h : ring.WF) (hwithin : WithinStorage ring.header.writeOffset) (frame : LinuxFrame) :
    writeRingbuff ring.wide frame = some ((ring.write frame).1 == 0, (ring.write frame).2.wide) := by
  rw [h.writeOffset, withinStorage_iff] at hwithin
  unfold writeRingbuff
  by_cases hfull : bufferNum ≤ ring.header.length.toNat
  · rw [if_pos (show bufferNum ≤ ring.wide.length from hfull), write_full h hfull frame]
    rfl
  · obtain ⟨hstatus, -, hwide⟩ := write_room h (not_le.1 hfull) frame
    rw [if_neg (show ¬ bufferNum ≤ ring.wide.length from hfull),
      if_pos (show ring.wide.tail < storageSlots from hwithin), hstatus, hwide]
    rfl

/-- So is `read_ringbuff`. -/
theorem read_wide (h : ring.WF) (hwithin : WithinStorage ring.header.readOffset) :
    readRingbuff ring.wide = some (ring.read.1.2, ring.read.2.wide) := by
  rw [h.readOffset, withinStorage_iff] at hwithin
  by_cases hempty : ring.header.length.toNat = 0
  · rw [readRingbuff_empty hempty, read_empty h hempty]
  · obtain ⟨hanswer, -, hwide⟩ := read_some h hempty
    unfold readRingbuff
    rw [if_neg (show ¬ ring.wide.length = 0 from hempty), if_pos (show ring.wide.head < storageSlots from hwithin),
      hanswer, hwide]
    rfl

/-- The first `BUFFER_NUM` frames are all stored. -/
theorem ringRun_stored (slots : Nat → LinuxFrame) {calls : List RingCall}
    (hfew : calls.countP RingCall.isWrite ≤ bufferNum) :
    (ringRun slots calls).1.countP RingAnswer.stored = calls.countP RingCall.isWrite := by
  induction calls using List.reverseRecOn with
  | nil => rfl
  | append_singleton calls c ih =>
    obtain ⟨hwf, hcount, -, -⟩ := ringRun_counters slots calls
    rw [countP_concat] at hfew ⊢
    have hbefore := ih (by omega)
    rw [ringRun_concat, countP_concat, hbefore]
    cases c with
    | write frame =>
      have hone : (RingCall.write frame).isWrite.toNat = 1 := rfl
      obtain ⟨hstatus, -, -⟩ := write_room hwf (by omega) frame
      unfold RingCall.apply
      dsimp only
      rw [hstatus]
      rfl
    | read => rfl

section Access

variable {slots : Nat → LinuxFrame} {calls : List RingCall}

/-- Up to the 32nd frame every call stays inside the storage. -/
theorem access_within {before : List RingCall} {c : RingCall} {offset : Nat}
    (hfew : (before ++ [c]).countP RingCall.isWrite ≤ 32) (hoffset : offset ∈ c.access (ringRun slots before).2) :
    WithinStorage offset := by
  obtain ⟨hwf, hcount, htail, hhead⟩ := ringRun_counters slots before
  rw [countP_concat] at hfew
  have hstored := @ringRun_stored slots before (by unfold bufferNum; omega)
  unfold bufferNum at htail hhead
  unfold RingCall.access at hoffset
  cases c with
  | write frame =>
    dsimp only at hoffset
    split at hoffset
    · rw [Option.mem_some_iff, hwf.writeOffset] at hoffset
      rw [← hoffset, withinStorage_iff]
      have hone : (RingCall.write frame).isWrite.toNat = 1 := rfl
      omega
    · cases hoffset
  | read =>
    dsimp only at hoffset
    split at hoffset
    · rename_i hcan
      have hsome := hwf.canRead_iff.1 hcan
      rw [Option.mem_some_iff, hwf.readOffset] at hoffset
      rw [← hoffset, withinStorage_iff]
      omega
    · cases hoffset

/-- A run that stays inside the storage has written at most 32 frames. -/
theorem writes_le (hwithin : ∀ before c after, calls = before ++ c :: after →
    ∀ offset ∈ c.access (ringRun slots before).2, WithinStorage offset) : calls.countP RingCall.isWrite ≤ 32 := by
  induction calls using List.reverseRecOn with
  | nil => exact Nat.zero_le _
  | append_singleton calls c ih =>
    have hbefore := ih fun before d after heq => hwithin before d (after ++ [c]) (by rw [heq, List.append_assoc]; rfl)
    rw [countP_concat]
    cases c with
    | read => exact hbefore
    | write frame =>
      by_contra hmany
      have hone : (RingCall.write frame).isWrite.toNat = 1 := rfl
      obtain ⟨hwf, hcount, htail, -⟩ := ringRun_counters slots calls
      have hstored := @ringRun_stored slots calls (by unfold bufferNum; omega)
      unfold bufferNum at htail
      have hcan : (ringRun slots calls).2.header.canWrite = true := hwf.canWrite_iff.2 (by unfold bufferNum; omega)
      have hlast := hwithin calls (.write frame) [] rfl (ringRun slots calls).2.header.writeOffset (if_pos hcan)
      rw [hwf.writeOffset, withinStorage_iff] at hlast
      omega

end Access

/-- A run stays inside `buffer_storage` if and only if it writes at most 32 frames, half of what the ring takes; the
offsets at head and tail are inside in exactly the first half of the slots.  Different slots never overlap. -/
theorem access_within_iff (slots : Nat → LinuxFrame) (calls : List RingCall) :
    ((∀ before c after, calls = before ++ c :: after → ∀ offset ∈ c.access (ringRun slots before).2,
    WithinStorage offset) ↔
      calls.countP RingCall.isWrite ≤ 32) ∧
    (WithinStorage (ringRun slots calls).2.header.writeOffset ↔ (ringRun slots calls).2.header.tail.toNat < 32) ∧
    (WithinStorage (ringRun slots calls).2.header.readOffset ↔ (ringRun slots calls).2.header.head.toNat < 32) ∧
    ∀ i j : UInt8, i.toNat < bufferNum → j.toNat < bufferNum → i ≠ j →
      Disjoint
        (Set.Ico { (ringRun slots calls).2.header with tail := i }.writeOffset
          ({ (ringRun slots calls).2.header with tail := i }.writeOffset + linuxFrameSize))
        (Set.Ico { (ringRun slots calls).2.header with tail := j }.writeOffset
          ({ (ringRun slots calls).2.header with tail := j }.writeOffset + linuxFrameSize)) := by
  obtain ⟨hwf, -, -, -⟩ := ringRun_counters slots calls
  refine ⟨⟨writes_le, fun hfew before c after heq offset hoffset => ?_⟩, ?_, ?_, ?_⟩
  · refine @access_within slots before c offset ?_ hoffset
    rw [heq, ← List.singleton_append, ← List.append_assoc, List.countP_append] at hfew
    omega
  · rw [hwf.writeOffset, withinStorage_iff]
  · rw [hwf.readOffset, withinStorage_iff]
  · intro i j _ _ hne
    have hslot : ∀ n : UInt8, { (ringRun slots calls).2.header with tail := n }.writeOffset =
      n.toNat * (bufferSize * 2) := by
      intro n
      show (n.toUInt32 * (ringRun slots calls).2.header.buffByte).toNat = _
      rw [hwf.buffByte, offset_eq]
    have hne' : i.toNat ≠ j.toNat := fun h => hne (UInt8.toNat_inj.1 h)
    rw [hslot, hslot, Set.disjoint_left]
    intro x hx hy
    unfold bufferSize linuxFrameSize at hx hy
    simp only [Set.mem_Ico] at hx hy
    omega

/-- The 33rd frame, with the ring half full, goes behind the end of the storage. -/
theorem access_outside : ¬ ∀ before c after,
    List.replicate 33 (RingCall.write startLink.rx.currentFrame) = before ++ c :: after →
      ∀ offset ∈ c.access (ringRun startLink.rx.ring.slots before).2, WithinStorage offset := by
  intro hwithin
  have hfew := writes_le hwithin
  rw [List.countP_replicate] at hfew
  exact absurd hfew (by decide)

end SoemMotion
