import Mathlib.Data.List.GetD
import SoemMotion.StreamReassembly

/-!
# The uplink

`ClientThreadData` builds a `tcp_frame_t` on its stack from the pins of the axes and `SendFrame` hands the first bytes
of it to the socket.  The frame is modelled as the stack from its first byte on: `header` at 0, `data_length` at 4, the
68 bytes of `payload` at 6, `checksum` at 74.  A write past the payload lands on what lies there.
-/

namespace SoemMotion

/-! ### The frame on the stack -/

/-- The stack from the first byte of the frame on, and the addresses that have been written. -/
structure Stack where
  byte : Nat → UInt8
  written : List Nat

/-- `memcpy` to an address of the stack. -/
def Stack.memcpy (addr : Nat) (bytes : List UInt8) (stack : Stack) : Stack where
  byte a := if addr ≤ a ∧ a < addr + bytes.length then bytes.getD (a - addr) 0 else stack.byte a
  written := stack.written ++ List.range' addr bytes.length

/-- The `n` bytes from an address on. -/
def Stack.slice (addr n : Nat) (stack : Stack) : List UInt8 := (List.range n).map fun i => stack.byte (addr + i)

/-- The pins of `axis_hal_t` that the uplink reads; a pin of the first kind may be a null pointer. -/
structure AxisHal where
  axisVelCmd : Option Int32
  axisAccCmd : Option Int32
  axisDecCmd : Option Int32
  axisPosCmd : Option Int32
  axisPosFb : Option Int32
  fError : Option Int32
  axisMotion : Option Int32
  axisStatus : Option Int32
  ampEnable : Bool
  active : Bool
  motionenable : Bool
  motionrunning : Bool
  fErrored : Bool
  inPosition : Bool
  ampFault : Bool
  posLimSw : Bool
  negLimSw : Bool
  phl : Bool
  nhl : Bool

/-- `int32_fields`. -/
def AxisHal.int32Fields (axis : AxisHal) : List (Option Int32) :=
  [axis.axisVelCmd, axis.axisAccCmd, axis.axisDecCmd, axis.axisPosCmd, axis.axisPosFb, axis.fError, axis.axisMotion,
    axis.axisStatus]

/-- `if (pin) status_bits |= mask`. -/
def flagBit (pin : Bool) (mask : Nat) : Nat := if pin then mask else 0

/-- `status_bits`. -/
def AxisHal.statusBits (axis : AxisHal) : Nat :=
  flagBit axis.ampEnable 0x0001 ||| flagBit axis.active 0x0002 ||| flagBit axis.motionenable 0x0004 |||
    flagBit axis.motionrunning 0x0008 ||| flagBit axis.fErrored 0x0010 ||| flagBit axis.inPosition 0x0020 |||
    flagBit axis.ampFault 0x0040 ||| flagBit axis.posLimSw 0x0080 ||| flagBit axis.negLimSw 0x0100 |||
    flagBit axis.phl 0x0200 ||| flagBit axis.nhl 0x0400

/-- `converter.bytes` of an integer pin. -/
def int32Field (field : Option Int32) : List UInt8 := le32 (field.getD 0).toUInt32.toNat

/-- `compress_axis_data`, with the buffer as an address of the stack. -/
def compressAxisData (axis : AxisHal) (buffer : Nat) (stack : Stack) : Nat × Stack :=
  let (offset, stack) := axis.int32Fields.foldl (fun s field =>
    ((s.1 + 4) % 65536, s.2.memcpy (buffer + s.1) (int32Field field))) (0, stack)
  ((offset + 2) % 65536, stack.memcpy (buffer + offset) (le16 axis.statusBits))

/-- `compress_multiple_axes_data`. -/
def compressMultipleAxesData (axes : List AxisHal) (buffer : Nat) (stack : Stack) : Nat × Stack :=
  axes.foldl (fun s axis =>
    let (size, stack) := compressAxisData axis (buffer + s.1) s.2
    ((s.1 + size) % 65536, stack)) (0, stack)

/-- `calculate_checksum`: the sum of the payload as a `uint16_t`. -/
def calculateChecksum (dataLength : Nat) (stack : Stack) : Nat :=
  sumBytes (stack.slice 6 dataLength) % 65536

/-- `SendFrame`: what is handed to `HP_Client_Send`, nothing while the client is not connected. -/
def sendFrame (bConnected : Bool) (dataLength : Nat) (stack : Stack) : Option (List UInt8) :=
  if bConnected then some (stack.slice 0 (4 + 2 + dataLength + 2)) else none

/-- The payload `ClientThreadData` builds: its length, and the stack after it. -/
def buildPayload (axes : List AxisHal) (stack : Stack) : Nat × Stack :=
  compressMultipleAxesData axes 6 (stack.memcpy 0 (le32 0xAA55AA55))

/-- `ClientThreadData` of a running client, with the pins of the first `num_axis` axes. -/
def clientThreadData (bConnected : Bool) (axes : List AxisHal) (stack : Stack) : Option (List UInt8) :=
  if axes.length = 0 then none
  else
    let (dataLength, stack) := buildPayload axes stack
    let stack := stack.memcpy 4 (le16 dataLength)
    let stack := stack.memcpy 74 (le16 (calculateChecksum dataLength stack))
    sendFrame bConnected dataLength stack

/-! ### The receiver -/

/-- The integers of a record. -/
def readInt32s : Nat → List UInt8 → Option (List Int32)
  | 0, _ => some []
  | n + 1, data => do
    let value ← readU32 data 0
    let values ← readInt32s n (data.drop 4)
    return (UInt32.ofNat value).toInt32 :: values

/-- The pins a record of 34 bytes carries. -/
def readAxis (data : List UInt8) : Option AxisHal := do
  match ← readInt32s 8 data with
  | [velCmd, accCmd, decCmd, posCmd, posFb, fError, motion, status] =>
    let bits ← readU16 data 32
    return {
      axisVelCmd := velCmd, axisAccCmd := accCmd, axisDecCmd := decCmd, axisPosCmd := posCmd, axisPosFb := posFb
      fError := fError, axisMotion := motion, axisStatus := status
      ampEnable := bits.testBit 0, active := bits.testBit 1, motionenable := bits.testBit 2
      motionrunning := bits.testBit 3, fErrored := bits.testBit 4, inPosition := bits.testBit 5
      ampFault := bits.testBit 6, posLimSw := bits.testBit 7, negLimSw := bits.testBit 8
      phl := bits.testBit 9, nhl := bits.testBit 10 }
  | _ => none

/-- The records of a payload. -/
def readAxes : Nat → List UInt8 → Option (List AxisHal)
  | 0, _ => some []
  | n + 1, data => do
    let axis ← readAxis data
    let axes ← readAxes n (data.drop 34)
    return axis :: axes

/-- A receiver of the layout header, length, records and checksum. -/
def readUplink (data : List UInt8) : Option (List AxisHal) := do
  let header ← readU32 data 0
  let dataLength ← readU16 data 4
  let payload ← readBytes data 6 dataLength
  let checksum ← readU16 data (6 + dataLength)
  if header = 0xAA55AA55 ∧ checksum = sumBytes payload % 65536 ∧ data.length = 8 + dataLength then
    readAxes (dataLength / 34) payload
  else none

/-- The pins as the receiver sees them: a null pointer is sent as zero. -/
def AxisHal.received (axis : AxisHal) : AxisHal :=
  { axis with
    axisVelCmd := some (axis.axisVelCmd.getD 0), axisAccCmd := some (axis.axisAccCmd.getD 0)
    axisDecCmd := some (axis.axisDecCmd.getD 0), axisPosCmd := some (axis.axisPosCmd.getD 0)
    axisPosFb := some (axis.axisPosFb.getD 0), fError := some (axis.fError.getD 0)
    axisMotion := some (axis.axisMotion.getD 0), axisStatus := some (axis.axisStatus.getD 0) }

/-! ### Records -/

/-- The record of an axis. -/
def AxisHal.record (axis : AxisHal) : List UInt8 := axis.int32Fields.flatMap int32Field ++ le16 axis.statusBits

/-- The layout: header, length, records, checksum of the records. -/
def uplinkFrame (axes : List AxisHal) : List UInt8 :=
  let payload := axes.flatMap AxisHal.record
  le32 0xAA55AA55 ++ (le16 payload.length ++ (payload ++ le16 (sumBytes payload % 65536)))

@[simp] theorem int32Field_length (field : Option Int32) : (int32Field field).length = 4 := rfl

@[simp] theorem AxisHal.record_length (axis : AxisHal) : axis.record.length = 34 := rfl

theorem flatMap_record_length (axes : List AxisHal) : (axes.flatMap AxisHal.record).length = 34 * axes.length := by
  induction axes with
  | nil => rfl
  | cons axis axes ih =>
    rw [List.flatMap_cons, List.length_append, ih, AxisHal.record_length, List.length_cons]
    omega

/-- Two copies one behind the other are one copy. -/
theorem Stack.memcpy_memcpy (stack : Stack) (addr : Nat) (xs ys : List UInt8) :
    (stack.memcpy addr xs).memcpy (addr + xs.length) ys = stack.memcpy addr (xs ++ ys) := by
  unfold Stack.memcpy
  congr 1
  · funext a
    dsimp only
    rw [List.length_append]
    by_cases hy : addr + xs.length ≤ a ∧ a < addr + xs.length + ys.length
    · rw [if_pos hy, if_pos (by omega), List.getD_append_right _ _ _ _ (by omega)]
      congr 1
      omega
    · rw [if_neg hy]
      by_cases hx : addr ≤ a ∧ a < addr + xs.length
      · rw [if_pos hx, if_pos (by omega), List.getD_append _ _ _ _ (by omega)]
      · rw [if_neg hx, if_neg (by omega)]
  · rw [List.length_append, List.append_assoc, List.range'_append_1]

theorem foldl_int32Fields (fields : List (Option Int32)) (buffer offset : Nat) (xs : List UInt8) (stack : Stack)
    (hxs : xs.length = offset) (hfits : offset + 4 * fields.length < 65536) :
    fields.foldl (fun s field => ((s.1 + 4) % 65536, s.2.memcpy (buffer + s.1) (int32Field field)))
        (offset, stack.memcpy buffer xs) =
      (offset + 4 * fields.length, stack.memcpy buffer (xs ++ fields.flatMap int32Field)) := by
  induction fields generalizing offset xs with
  | nil => simp
  | cons field fields ih =>
    rw [List.length_cons] at hfits
    subst hxs
    rw [List.foldl_cons, Stack.memcpy_memcpy, Nat.mod_eq_of_lt (by omega),
      ih (xs.length + 4) (xs ++ int32Field field) (by simp) (by omega), List.flatMap_cons, List.append_assoc,
      List.length_cons]
    congr 1
    omega

theorem Stack.memcpy_nil (stack : Stack) (addr : Nat) : stack.memcpy addr [] = stack := by
  unfold Stack.memcpy
  congr 1
  · funext a
    exact if_neg (by rw [List.length_nil]; omega)
  · exact List.append_nil _

/-- An axis is written as one record. -/
theorem compressAxisData_eq (axis : AxisHal) (buffer : Nat) (stack : Stack) :
    compressAxisData axis buffer stack = (34, stack.memcpy buffer axis.record) := by
  have hfold := foldl_int32Fields axis.int32Fields buffer 0 [] stack rfl (by simp [AxisHal.int32Fields])
  rw [Stack.memcpy_nil] at hfold
  have hlen : (axis.int32Fields.flatMap int32Field).length = 32 := rfl
  unfold compressAxisData
  rw [hfold]
  show (34, (stack.memcpy buffer (axis.int32Fields.flatMap int32Field)).memcpy (buffer + 32) _) = _
  rw [← hlen, Stack.memcpy_memcpy]
  rfl

/-- The payload is the records one behind the other. -/
theorem compressMultipleAxesData_eq (axes : List AxisHal) (buffer : Nat) (stack : Stack)
    (hfits : 34 * axes.length < 65536) :
    compressMultipleAxesData axes buffer stack =
      (34 * axes.length, stack.memcpy buffer (axes.flatMap AxisHal.record)) := by
  have key : ∀ (axes : List AxisHal) (xs : List UInt8), xs.length + 34 * axes.length < 65536 →
      axes.foldl (fun s axis =>
        let (size, stack) := compressAxisData axis (buffer + s.1) s.2
        ((s.1 + size) % 65536, stack)) (xs.length, stack.memcpy buffer xs) =
      (xs.length + 34 * axes.length, stack.memcpy buffer (xs ++ axes.flatMap AxisHal.record)) := by
    intro axes
    induction axes with
    | nil => simp
    | cons axis axes ih =>
      intro xs hlen
      rw [List.length_cons] at hlen
      have hstep := ih (xs ++ axis.record) (by rw [List.length_append, AxisHal.record_length]; omega)
      rw [List.foldl_cons, List.flatMap_cons, ← List.append_assoc, List.length_cons]
      simp only [compressAxisData_eq, Stack.memcpy_memcpy]
      rw [Nat.mod_eq_of_lt (by omega)]
      rw [List.length_append, AxisHal.record_length] at hstep
      simp only [compressAxisData_eq] at hstep
      rw [hstep]
      congr 1
      omega
  have h := key axes [] (by simpa using hfits)
  rw [Stack.memcpy_nil] at h
  simpa [compressMultipleAxesData] using h

/-! ### What is sent -/

theorem Stack.slice_add (stack : Stack) (addr m n : Nat) :
    stack.slice addr (m + n) = stack.slice addr m ++ stack.slice (addr + m) n := by
  simp [Stack.slice, List.range_add, Nat.add_assoc]

theorem Stack.slice_memcpy (stack : Stack) (addr : Nat) (xs : List UInt8) :
    (stack.memcpy addr xs).slice addr xs.length = xs := by
  refine List.ext_getElem (by simp [Stack.slice]) fun i hi hx => ?_
  simp [Stack.slice, Stack.memcpy, hx]

theorem Stack.slice_memcpy_of_disjoint (stack : Stack) {addr a n : Nat} {xs : List UInt8}
    (h : addr + xs.length ≤ a ∨ a + n ≤ addr) : (stack.memcpy addr xs).slice a n = stack.slice a n := by
  refine List.map_congr_left fun i hi => ?_
  have hin := List.mem_range.1 hi
  exact if_neg (by omega)

/-- The last bytes sent are the checksum only where the records fill the payload; elsewhere they are what the stack held
behind the records. -/
theorem clientThreadData_short {axes : List AxisHal} {stack : Stack} (hpos : 0 < axes.length) (hlen : axes.length ≤ 2) :
    clientThreadData true axes stack = some (le32 0xAA55AA55 ++ (le16 (34 * axes.length) ++
      (axes.flatMap AxisHal.record ++
        if axes.length = 2 then le16 (sumBytes (axes.flatMap AxisHal.record) % 65536) else stack.slice 40 2))) := by
  have hL := flatMap_record_length axes
  generalize hrec : axes.flatMap AxisHal.record = rec at hL ⊢
  let stack₀ := stack.memcpy 0 (le32 0xAA55AA55)
  let stack₁ := stack₀.memcpy 6 rec
  let stack₂ := stack₁.memcpy 4 (le16 (34 * axes.length))
  have hpayload₂ : stack₂.slice 6 (34 * axes.length) = rec := by
    rw [Stack.slice_memcpy_of_disjoint _ (Or.inl (by simp)), ← hL, Stack.slice_memcpy]
  have hsum : calculateChecksum (34 * axes.length) stack₂ = sumBytes rec % 65536 := by
    rw [calculateChecksum, hpayload₂]
  let stack₃ := stack₂.memcpy 74 (le16 (sumBytes rec % 65536))
  have hheader : stack₃.slice 0 4 = le32 0xAA55AA55 := by
    rw [Stack.slice_memcpy_of_disjoint _ (Or.inr (by omega)), Stack.slice_memcpy_of_disjoint _ (Or.inr (by omega)),
      Stack.slice_memcpy_of_disjoint _ (Or.inr (by omega))]
    exact stack.slice_memcpy 0 (le32 0xAA55AA55)
  have hlength : stack₃.slice 4 2 = le16 (34 * axes.length) := by
    rw [Stack.slice_memcpy_of_disjoint _ (Or.inr (by omega))]
    exact stack₁.slice_memcpy 4 (le16 (34 * axes.length))
  have hpayload : stack₃.slice 6 (34 * axes.length) = rec := by
    rw [Stack.slice_memcpy_of_disjoint _ (Or.inr (by omega)), hpayload₂]
  -- the checksum goes to where two records end; after a single one, the bytes there are old
  have hlast : stack₃.slice (6 + 34 * axes.length) 2 =
      if axes.length = 2 then le16 (sumBytes rec % 65536) else stack.slice 40 2 := by
    by_cases htwo : axes.length = 2
    · rw [if_pos htwo, htwo]
      exact stack₂.slice_memcpy 74 (le16 (sumBytes rec % 65536))
    · have hone : axes.length = 1 := by omega
      rw [if_neg htwo, hone]
      rw [hone] at hL
      rw [Stack.slice_memcpy_of_disjoint _ (Or.inr (by omega)), Stack.slice_memcpy_of_disjoint _ (Or.inl (by simp)),
        Stack.slice_memcpy_of_disjoint _ (Or.inl (by omega)), Stack.slice_memcpy_of_disjoint _ (Or.inl (by simp))]
  have hsent : stack₃.slice 0 (4 + 2 + 34 * axes.length + 2) = le32 0xAA55AA55 ++ (le16 (34 * axes.length) ++
      (rec ++ if axes.length = 2 then le16 (sumBytes rec % 65536) else stack.slice 40 2)) := by
    rw [Stack.slice_add, Stack.slice_add, Stack.slice_add, Nat.zero_add, Nat.zero_add, Nat.zero_add, hheader, hlength,
      hpayload, hlast, List.append_assoc, List.append_assoc]
  have hnot : ¬ axes.length = 0 := by omega
  rw [clientThreadData, if_neg hnot, buildPayload, compressMultipleAxesData_eq axes 6 _ (by omega), hrec]
  show sendFrame true (34 * axes.length)
    (stack₂.memcpy 74 (le16 (calculateChecksum (34 * axes.length) stack₂))) = _
  rw [hsum, sendFrame, if_pos rfl, ← hsent]

/-! ### What is received -/

theorem testBit_flagBit (pin : Bool) (mask i : Nat) : (flagBit pin mask).testBit i = (pin && mask.testBit i) := by
  cases pin
  · simp [flagBit]
  · simp [flagBit]

theorem flagBit_lt (pin : Bool) {mask : Nat} (h : mask < 2 ^ 16) : flagBit pin mask < 2 ^ 16 := by
  unfold flagBit
  split
  · exact h
  · omega

theorem AxisHal.statusBits_lt (axis : AxisHal) : axis.statusBits < 65536 := by
  unfold AxisHal.statusBits
  repeat' refine Nat.or_lt_two_pow (n := 16) ?_ ?_
  all_goals exact flagBit_lt _ (by norm_num)

theorem readInt32s_flatMap (fields : List (Option Int32)) (rest : List UInt8) :
    readInt32s fields.length (fields.flatMap int32Field ++ rest) = some (fields.map fun field => field.getD 0) := by
  induction fields with
  | nil => rfl
  | cons field fields ih =>
    have hvalue : readU32 (int32Field field ++ (fields.flatMap int32Field ++ rest)) 0 =
        some (field.getD 0).toUInt32.toNat := readU32_le32 (field.getD 0).toUInt32.toNat_lt _
    have hback : (UInt32.ofNat (field.getD 0).toUInt32.toNat).toInt32 = field.getD 0 := by simp
    rw [List.length_cons, List.flatMap_cons, List.append_assoc, readInt32s, hvalue,
      List.drop_left' (int32Field_length field)]
    simp only [Option.bind_eq_bind, Option.bind_some, ih, hback]
    rfl

/-- Each bit of the status word is its pin. -/
theorem AxisHal.testBit_statusBits (axis : AxisHal) :
    axis.statusBits.testBit 0 = axis.ampEnable ∧ axis.statusBits.testBit 1 = axis.active ∧
    axis.statusBits.testBit 2 = axis.motionenable ∧ axis.statusBits.testBit 3 = axis.motionrunning ∧
    axis.statusBits.testBit 4 = axis.fErrored ∧ axis.statusBits.testBit 5 = axis.inPosition ∧
    axis.statusBits.testBit 6 = axis.ampFault ∧ axis.statusBits.testBit 7 = axis.posLimSw ∧
    axis.statusBits.testBit 8 = axis.negLimSw ∧ axis.statusBits.testBit 9 = axis.phl ∧
    axis.statusBits.testBit 10 = axis.nhl := by
  simp only [AxisHal.statusBits, Nat.testBit_or, testBit_flagBit]
  simp [Nat.testBit]

/-- A record is read back. -/
theorem readAxis_record (axis : AxisHal) (rest : List UInt8) : readAxis (axis.record ++ rest) = some axis.received := by
  have hints : readInt32s 8 (axis.record ++ rest) = some (axis.int32Fields.map fun field => field.getD 0) := by
    rw [AxisHal.record, List.append_assoc]
    exact readInt32s_flatMap axis.int32Fields (le16 axis.statusBits ++ rest)
  have hbits : readU16 (axis.record ++ rest) 32 = some axis.statusBits := by
    rw [AxisHal.record, List.append_assoc]
    exact (readU16_append (axis.int32Fields.flatMap int32Field) _ 0).trans (readU16_le16 axis.statusBits_lt rest)
  obtain ⟨h0, h1, h2, h3, h4, h5, h6, h7, h8, h9, h10⟩ := axis.testBit_statusBits
  rw [readAxis, hints]
  simp only [AxisHal.int32Fields, List.map_cons, List.map_nil, Option.bind_eq_bind, Option.bind_some, hbits, h0, h1, h2,
    h3, h4, h5, h6, h7, h8, h9, h10]
  rfl

theorem readAxes_flatMap (axes : List AxisHal) :
    readAxes axes.length (axes.flatMap AxisHal.record) = some (axes.map AxisHal.received) := by
  induction axes with
  | nil => rfl
  | cons axis axes ih =>
    rw [List.length_cons, List.flatMap_cons, readAxes, readAxis_record, List.drop_left' axis.record_length, ih]
    rfl

/-- The layout is read back. -/
theorem readUplink_uplinkFrame {axes : List AxisHal} (hlen : 34 * axes.length < 65536) :
    readUplink (uplinkFrame axes) = some (axes.map AxisHal.received) := by
  have hL := flatMap_record_length axes
  have hread := readAxes_flatMap axes
  unfold uplinkFrame
  dsimp only
  generalize axes.flatMap AxisHal.record = rec at hL hread ⊢
  have hheader : readU32 (le32 0xAA55AA55 ++ (le16 rec.length ++ (rec ++ le16 (sumBytes rec % 65536)))) 0 =
      some 0xAA55AA55 := readU32_le32 (by norm_num) _
  have hlength : readU16 (le32 0xAA55AA55 ++ (le16 rec.length ++ (rec ++ le16 (sumBytes rec % 65536)))) 4 =
      some rec.length := (readU16_append (le32 0xAA55AA55) _ 0).trans (readU16_le16 (by omega) _)
  have hpayload : readBytes (le32 0xAA55AA55 ++ (le16 rec.length ++ (rec ++ le16 (sumBytes rec % 65536)))) 6
      rec.length = some rec := by
    have h := readBytes_append (le32 0xAA55AA55 ++ le16 rec.length) (rec ++ le16 (sumBytes rec % 65536)) 0 rec.length
    rw [readBytes_left _ _ (le_refl _), List.take_length] at h
    simpa [List.append_assoc] using h
  have hsum : readU16 (le32 0xAA55AA55 ++ (le16 rec.length ++ (rec ++ le16 (sumBytes rec % 65536)))) (6 + rec.length) =
      some (sumBytes rec % 65536) := by
    have h := readU16_append (le32 0xAA55AA55 ++ le16 rec.length ++ rec) (le16 (sumBytes rec % 65536)) 0
    have hlast := readU16_le16 (n := sumBytes rec % 65536) (Nat.mod_lt _ (by norm_num)) []
    rw [List.append_nil] at hlast
    have hindex : 6 + rec.length = 4 + (2 + rec.length) := by omega
    rw [hindex]
    simpa [List.append_assoc, hlast] using h
  have hquot : rec.length / 34 = axes.length := by omega
  rw [readUplink, hheader]
  simp only [Option.bind_eq_bind, Option.bind_some, hlength, hpayload, hsum, hquot, hread]
  rw [if_pos]
  refine ⟨trivial, trivial, ?_⟩
  simp only [List.length_append, le32_length, le16_length]
  omega

/-! ### The round trip -/

/-- A frame of these pins, built on this stack, is sent in the layout, recovered by the receiver, and built without a
write outside the payload. -/
structure UplinkRoundTrip (axes : List AxisHal) (stack : Stack) : Prop where
  sent : clientThreadData true axes stack = some (uplinkFrame axes)
  recovered : (clientThreadData true axes stack).bind readUplink = some (axes.map AxisHal.received)
  inside : ∀ a ∈ (compressMultipleAxesData axes 6 { stack with written := [] }).2.written, 6 ≤ a ∧ a < 6 + 68

/-- The addresses that are written while the payload is built. -/
theorem compressMultipleAxesData_written {axes : List AxisHal} {stack : Stack} (hlen : 34 * axes.length < 65536)
    (a : Nat) :
    a ∈ (compressMultipleAxesData axes 6 { stack with written := [] }).2.written ↔
      6 ≤ a ∧ a < 6 + 34 * axes.length := by
  rw [compressMultipleAxesData_eq axes 6 _ hlen]
  show a ∈ [] ++ List.range' 6 (axes.flatMap AxisHal.record).length ↔ _
  rw [List.nil_append, List.mem_range'_1, flatMap_record_length]

theorem uplinkRoundTrip_two {axes : List AxisHal} (h : axes.length = 2) (stack : Stack) :
    UplinkRoundTrip axes stack := by
  have hsent : clientThreadData true axes stack = some (uplinkFrame axes) := by
    rw [clientThreadData_short (by omega) (by omega), if_pos h, uplinkFrame, flatMap_record_length]
  refine ⟨hsent, ?_, ?_⟩
  · rw [hsent]
    exact readUplink_uplinkFrame (by omega)
  · intro a ha
    rw [compressMultipleAxesData_written (by omega)] at ha
    omega

/-- A stack whose bytes are all `value`. -/
def Stack.filled (value : UInt8) : Stack := ⟨fun _ => value, []⟩

/-- With one axis the last two bytes are whatever the stack held. -/
theorem not_uplinkRoundTrip_one {axes : List AxisHal} (h : axes.length = 1) {value : UInt8}
    (hvalue : value ≠ UInt8.ofNat (sumBytes (axes.flatMap AxisHal.record) % 65536)) :
    ¬ UplinkRoundTrip axes (Stack.filled value) := by
  intro hrt
  have hsent := hrt.sent
  rw [clientThreadData_short (by omega) (by omega), if_neg (by omega), uplinkFrame, flatMap_record_length] at hsent
  have hlast := List.append_cancel_left (List.append_cancel_left (List.append_cancel_left (Option.some.inj hsent)))
  exact hvalue (List.cons.inj hlast).1

/-- The uplink round trip holds, whatever the stack held before, exactly for two axes. -/
theorem uplinkRoundTrip_iff {axes : List AxisHal} (h : axes.length ≤ 3) :
    (∀ stack, UplinkRoundTrip axes stack) ↔ axes.length = 2 := by
  constructor
  · intro hrt
    by_contra hne
    have hcases : axes.length = 0 ∨ axes.length = 1 ∨ axes.length = 3 := by omega
    rcases hcases with hzero | hone | hthree
    · have hsent := (hrt (Stack.filled 0)).sent
      simp [clientThreadData, hzero] at hsent
    · by_cases hvalue : (0 : UInt8) = UInt8.ofNat (sumBytes (axes.flatMap AxisHal.record) % 65536)
      · have hne : (1 : UInt8) ≠ 0 := by decide
        exact not_uplinkRoundTrip_one hone (hvalue ▸ hne) (hrt _)
      · exact not_uplinkRoundTrip_one hone hvalue (hrt _)
    · -- the third record starts behind the payload
      have hin := (hrt (Stack.filled 0)).inside 74 ((compressMultipleAxesData_written (by omega) 74).2 (by omega))
      omega
  · intro htwo stack
    exact uplinkRoundTrip_two htwo stack

/-- An axis that jogs backwards. -/
def joggingAxis : AxisHal where
  axisVelCmd := some (-250)
  axisAccCmd := some 1000
  axisDecCmd := some 800
  axisPosCmd := some (-40321)
  axisPosFb := some (-40317)
  fError := some (-4)
  axisMotion := some 1
  axisStatus := some 39
  ampEnable := true
  active := true
  motionenable := true
  motionrunning := true
  fErrored := false
  inPosition := false
  ampFault := false
  posLimSw := false
  negLimSw := false
  phl := false
  nhl := true

/-- An axis that stands on its positive switch with a drive fault; its deceleration pin is a null pointer. -/
def faultedAxis : AxisHal where
  axisVelCmd := some 0
  axisAccCmd := some 500
  axisDecCmd := none
  axisPosCmd := some 65536
  axisPosFb := some 70000
  fError := some 4464
  axisMotion := some 2
  axisStatus := some 8
  ampEnable := false
  active := true
  motionenable := true
  motionrunning := false
  fErrored := true
  inPosition := true
  ampFault := true
  posLimSw := true
  negLimSw := false
  phl := true
  nhl := false

/-- Both axes together are recovered, one of them alone is not. -/
theorem uplinkRoundTrip_iff_axes : (∀ stack, UplinkRoundTrip [joggingAxis, faultedAxis] stack) ∧
    ¬ ∀ stack, UplinkRoundTrip [joggingAxis] stack :=
  ⟨(uplinkRoundTrip_iff (by decide)).2 rfl, fun h => absurd ((uplinkRoundTrip_iff (by decide)).1 h) (by decide)⟩

/-- An axis whose pins are all zero. -/
def zeroAxis : AxisHal where
  axisVelCmd := some 0
  axisAccCmd := some 0
  axisDecCmd := some 0
  axisPosCmd := some 0
  axisPosFb := some 0
  fError := some 0
  axisMotion := some 0
  axisStatus := some 0
  ampEnable := false
  active := false
  motionenable := false
  motionrunning := false
  fErrored := false
  inPosition := false
  ampFault := false
  posLimSw := false
  negLimSw := false
  phl := false
  nhl := false

/-- Three axes, as many as the motion module accepts, write 34 bytes behind the payload. -/
theorem threeAxes_outside : ¬ UplinkRoundTrip [zeroAxis, zeroAxis, zeroAxis] (Stack.filled 0) := by
  intro hrt
  have hin := hrt.inside 74 ((compressMultipleAxesData_written (by decide) 74).2 (by decide))
  omega

end SoemMotion
