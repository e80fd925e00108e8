import Mathlib.Data.List.GetD
import SoemMotion.FrameDecode

/-!
# Frames of requests

The other side of the link: the payload that carries a request, and that `ProcessTask` decodes the request from it, also
when it has come through `AnalyseData` and the ring.
-/

namespace SoemMotion

/-! ### Parameters -/

/-- An `int32_t`. -/
def IsInt32 (n : Int) : Prop := -2 ^ 31 ≤ n ∧ n < 2 ^ 31

instance (n : Int) : Decidable (IsInt32 n) := inferInstanceAs (Decidable (_ ∧ _))

/-- The bytes of an `int32_t`, the low one first. -/
def int32Bytes (n : Int) : List UInt8 := le32 (n % 2 ^ 32).toNat

/-- The packet of a command with its parameters. -/
def commandPacket (code axis : Nat) (params : List Int) : Packet :=
  let payload := le16 code ++ le16 axis ++ params.flatMap int32Bytes
  { header := 0x55AA55AA, payload := payload
    checksum := sumBytes ((le16 payload.length ++ payload).take payload.length) }

theorem flatMap_int32Bytes_length (params : List Int) : (params.flatMap int32Bytes).length = 4 * params.length := by
  induction params with
  | nil => rfl
  | cons n params ih =>
    rw [List.flatMap_cons, List.length_append, ih, List.length_cons]
    show 4 + _ = _
    omega

theorem commandPacket_length (code axis : Nat) (params : List Int) :
    (commandPacket code axis params).payload.length = 4 + 4 * params.length := by
  show (le16 code ++ le16 axis ++ params.flatMap int32Bytes).length = _
  rw [List.length_append, List.length_append, le16_length, le16_length, flatMap_int32Bytes_length]

theorem commandPacket_wellFormed (code axis : Nat) {params : List Int} (h : params.length ≤ 15) :
    (commandPacket code axis params).WellFormed := by
  refine ⟨rfl, ?_, rfl⟩
  rw [commandPacket_length]
  omega

theorem getD_flatMap_int32Bytes {params : List Int} {k j : Nat} (hk : k < params.length) (hj : j < 4) :
    (params.flatMap int32Bytes).getD (4 * k + j) 0 = (int32Bytes (params.getD k 0)).getD j 0 := by
  induction params generalizing k with
  | nil => simp at hk
  | cons n params ih =>
    rw [List.flatMap_cons]
    have hlen : (int32Bytes n).length = 4 := rfl
    cases k with
    | zero =>
      rw [List.getD_append _ _ _ _ (by omega), Nat.mul_zero, Nat.zero_add]
      rfl
    | succ k =>
      have hk' : k < params.length := by simpa using hk
      rw [List.getD_append_right _ _ _ _ (by omega), hlen]
      have hi : 4 * (k + 1) + j - 4 = 4 * k + j := by omega
      rw [hi]
      exact ih hk'

theorem frame_byte (p : Packet) {i : Nat} (h : i < 128) : p.frame.byte i = (p.payload.getD i 0).toNat := dif_pos h

/-- Byte `j` of the `k`-th parameter. -/
theorem commandPacket_byte {code axis : Nat} {params : List Int} {k j : Nat} (hk : k < params.length) (hj : j < 4)
    (hlen : params.length ≤ 15) :
    (commandPacket code axis params).frame.byte (4 + 4 * k + j) = ((int32Bytes (params.getD k 0)).getD j 0).toNat := by
  have hlen4 : (le16 code ++ le16 axis).length = 4 := rfl
  rw [frame_byte _ (by omega), ← getD_flatMap_int32Bytes hk hj]
  show ((le16 code ++ le16 axis ++ params.flatMap int32Bytes).getD (4 + 4 * k + j) 0).toNat = _
  rw [List.getD_append_right _ _ _ _ (by omega), hlen4]
  congr 2
  omega

/-- A parameter is read back. -/
theorem commandPacket_param {code axis : Nat} {params : List Int} {k : Nat} (hk : k < params.length)
    (hlen : params.length ≤ 15) (hn : IsInt32 (params.getD k 0)) :
    (commandPacket code axis params).frame.param k = params.getD k 0 := by
  have h0 : ∀ m : Nat, (UInt8.ofNat m).toNat = m % 256 := fun m => UInt8.toNat_ofNat'
  have hb : ∀ j < 4, (commandPacket code axis params).frame.byte (4 + 4 * k + j) =
      ((int32Bytes (params.getD k 0)).getD j 0).toNat := fun j hj => commandPacket_byte hk hj hlen
  generalize params.getD k 0 = n at hn hb ⊢
  have hb0 : (commandPacket code axis params).frame.byte (4 + 4 * k) = (n % 2 ^ 32).toNat % 256 :=
    (hb 0 (by omega)).trans (h0 _)
  have hb1 : (commandPacket code axis params).frame.byte (4 + 4 * k + 1) = (n % 2 ^ 32).toNat / 256 % 256 :=
    (hb 1 (by omega)).trans (h0 _)
  have hb2 : (commandPacket code axis params).frame.byte (4 + 4 * k + 2) = (n % 2 ^ 32).toNat / 65536 % 256 :=
    (hb 2 (by omega)).trans (h0 _)
  have hb3 : (commandPacket code axis params).frame.byte (4 + 4 * k + 2 + 1) =
      (n % 2 ^ 32).toNat / 65536 / 256 % 256 := (hb 3 (by omega)).trans (h0 _)
  obtain ⟨hmin, hmax⟩ := hn
  unfold LinuxFrame.param LinuxFrame.i32 LinuxFrame.u16
  rw [hb0, hb1, hb2, hb3]
  dsimp only
  split <;> omega

theorem commandPacket_u16 {code axis : Nat} (hcode : code < 65536) (haxis : axis < 65536) (params : List Int) :
    (commandPacket code axis params).frame.u16 0 = code ∧ (commandPacket code axis params).frame.u16 2 = axis := by
  have hbyte : ∀ {i : Nat}, i < 4 → (commandPacket code axis params).frame.byte i =
      ((le16 code ++ le16 axis).getD i 0).toNat := by
    intro i hi
    have hlen4 : (le16 code ++ le16 axis).length = 4 := rfl
    rw [frame_byte _ (by omega)]
    show ((le16 code ++ le16 axis ++ params.flatMap int32Bytes).getD i 0).toNat = _
    rw [List.getD_append _ _ _ _ (by omega)]
  have h0 : ∀ m : Nat, (UInt8.ofNat m).toNat = m % 256 := fun m => UInt8.toNat_ofNat'
  have hb0 : (commandPacket code axis params).frame.byte 0 = code % 256 := (hbyte (by omega)).trans (h0 _)
  have hb1 : (commandPacket code axis params).frame.byte (0 + 1) = code / 256 % 256 := (hbyte (by omega)).trans (h0 _)
  have hb2 : (commandPacket code axis params).frame.byte 2 = axis % 256 := (hbyte (by omega)).trans (h0 _)
  have hb3 : (commandPacket code axis params).frame.byte (2 + 1) = axis / 256 % 256 := (hbyte (by omega)).trans (h0 _)
  unfold LinuxFrame.u16
  rw [hb0, hb1, hb2, hb3]
  omega

/-! ### Requests -/

/-- The code on the wire, zero for a command the network does not know. -/
def CmdCode.index : CmdCode → Nat
  | .downloadsConfig => 1
  | .axisEnable => 2
  | .axisDisable => 3
  | .motionEnable => 4
  | .motionDisable => 5
  | .jogCont => 9
  | .jogIncr => 10
  | .jogAbs => 11
  | .jogAbort => 12
  | .setLine => 13
  | .setFree => 15
  | .setCoord => 16
  | _ => 0

/-- The parameter struct of a request, with zero where it is not read. -/
def Request.params : Request → List Int
  | .downloadsConfig _ vel acc maxvel maxacc maxAxisScale maxLimit minLimit =>
    [0, 0, vel, 0, 0, acc, 0, maxvel, maxacc, 0, maxAxisScale, 0, maxLimit, minLimit]
  | .jogCont _ vel acc dir => [vel, acc, 0, dir]
  | .jogIncr _ vel acc pos dir => [vel, 0, acc, 0, pos, dir]
  | .jogAbs _ vel acc pos => [vel, 0, acc, 0, pos]
  | .setLine _ startVel vel acc ref dir pos selects =>
    [startVel, vel, acc, 0, ref, dir, pos 0, pos 1, pos 2, if selects 0 then 1 else 0, if selects 1 then 1 else 0,
      if selects 2 then 1 else 0]
  | .enable .. => [0]
  | .plain .. => [0]

/-- The packet that carries a request. -/
def Request.encode (r : Request) : Packet := commandPacket r.code.index r.axis r.params

/-- The commands the network knows that have no parameters of their own. -/
def CmdCode.isPlain : CmdCode → Bool
  | .motionEnable | .motionDisable | .jogAbort | .setFree | .setCoord => true
  | _ => false

/-- The values of a request fit its fields on the wire. -/
structure Request.Encodable (r : Request) : Prop where
  axis : r.axis < 65536
  params : ∀ n ∈ r.params, IsInt32 n
  plain : ∀ code axis, r = .plain code axis → code.isPlain = true

theorem Request.params_length_le (r : Request) : r.params.length ≤ 15 := by
  cases r <;> simp [Request.params]

theorem CmdCode.index_lt (c : CmdCode) : c.index < 65536 := by
  cases c <;> decide

theorem encode_wellFormed (r : Request) : r.encode.WellFormed := commandPacket_wellFormed _ _ r.params_length_le

/-- A request is decoded from its packet. -/
theorem encode_request {r : Request} (h : r.Encodable) : r.encode.frame.request = some r := by
  obtain ⟨hcode, haxis⟩ := commandPacket_u16 r.code.index_lt h.axis r.params
  have hlen := commandPacket_length r.code.index r.axis r.params
  have hsize : r.encode.frame.paramDataLength = 4 * r.params.length := by
    have h15 := r.params_length_le
    have hdata : r.encode.frame.dataLength = 4 + 4 * r.params.length := hlen
    rw [paramDataLength_of_le (by omega) (by omega), hdata]
    omega
  have hparam : ∀ k n, r.params[k]? = some n → r.encode.frame.param k = n := by
    intro k n hn
    obtain ⟨hk, hget⟩ := List.getElem?_eq_some_iff.1 hn
    have hvalue : r.params.getD k 0 = n := (List.getD_eq_getElem _ _ hk).trans hget
    have hmem : n ∈ r.params := hget ▸ List.getElem_mem hk
    rw [← hvalue]
    exact commandPacket_param hk r.params_length_le (hvalue.symm ▸ h.params n hmem)
  change r.encode.frame.u16 0 = r.code.index at hcode
  change r.encode.frame.u16 2 = r.axis at haxis
  unfold LinuxFrame.request LinuxFrame.decoded
  rw [hcode, haxis, hsize]
  -- from here on only the parameters of the frame matter
  generalize r.encode.frame = frame at hparam
  cases r with
  | downloadsConfig axis vel acc maxvel maxacc maxAxisScale maxLimit minLimit =>
    show some (Request.downloadsConfig axis (frame.param 2) (frame.param 5) (frame.param 7) (frame.param 8)
      (frame.param 10) (frame.param 12) (frame.param 13)) = _
    rw [hparam 2 vel rfl, hparam 5 acc rfl, hparam 7 maxvel rfl, hparam 8 maxacc rfl, hparam 10 maxAxisScale rfl,
      hparam 12 maxLimit rfl, hparam 13 minLimit rfl]
  | jogCont axis vel acc dir =>
    show some (Request.jogCont axis (frame.param 0) (frame.param 1) (frame.param 3)) = _
    rw [hparam 0 vel rfl, hparam 1 acc rfl, hparam 3 dir rfl]
  | jogIncr axis vel acc pos dir =>
    show some (Request.jogIncr axis (frame.param 0) (frame.param 2) (frame.param 4) (frame.param 5)) = _
    rw [hparam 0 vel rfl, hparam 2 acc rfl, hparam 4 pos rfl, hparam 5 dir rfl]
  | jogAbs axis vel acc pos =>
    show some (Request.jogAbs axis (frame.param 0) (frame.param 2) (frame.param 4)) = _
    rw [hparam 0 vel rfl, hparam 2 acc rfl, hparam 4 pos rfl]
  | setLine axis startVel vel acc ref dir pos selects =>
    have hpos : (fun i : Fin 3 => frame.param (6 + i.val)) = pos := by
      funext i
      fin_cases i <;> exact hparam _ _ rfl
    have hselects : (fun i : Fin 3 => decide (frame.param (9 + i.val) = 1)) = selects := by
      have hbit : ∀ b : Bool, decide ((if b then 1 else 0 : Int) = 1) = b := by decide
      funext i
      have hbits : frame.param (9 + i.val) = if selects i then 1 else 0 := by
        fin_cases i <;> exact hparam _ _ rfl
      rw [hbits, hbit]
    show some (Request.setLine axis (frame.param 0) (frame.param 1) (frame.param 2) (frame.param 4) (frame.param 5)
      (fun i => frame.param (6 + i.val)) fun i => decide (frame.param (9 + i.val) = 1)) = _
    rw [hpos, hselects, hparam 0 startVel rfl, hparam 1 vel rfl, hparam 2 acc rfl, hparam 4 ref rfl,
      hparam 5 dir rfl]
  | enable axis fl => cases fl <;> rfl
  | plain code axis =>
    have hplain := h.plain code axis rfl
    cases code <;> first | rfl | cases hplain

/-- The frame of a request publishes it. -/
theorem processFrame_encode {K : Type} [Arith K] {r : Request} (h : r.Encodable) (s : Machine K) :
    processFrame s r.encode.frame = publish (some r) s := by
  rw [processFrame_eq, encode_request h]

/-- A request that is sent while the ring is empty is published as it was sent, whatever has been received before. -/
theorem request_delivered {K : Type} [Arith K] {d : Downlink K} {r : Request} (hr : r.Encodable)
    (hstored : d.rx.ring.Stored) (hempty : d.rx.ring.length = 0) (hslot : d.rx.ring.tail < storageSlots) :
    ∃ d', DownlinkStep d (.receive r.encode.encode) d' ∧ d'.machine = d.machine ∧
      (processTask d').map Downlink.machine = publish (some r) d.machine := by
  have hp := encode_wellFormed r
  obtain ⟨d', frame, hstep, hmachine, hsem, -, -, hpacket, ring, hread, -⟩ := receive_step hp hstored hempty hslot
  have htakes : d'.Takes r.encode := ⟨hsem, ring, frame, hread, hpacket⟩
  obtain ⟨taken, htaken, htask⟩ := processTask_takes htakes
  have hsame : taken.packet = r.encode.frame.packet := htaken.trans (Packet.frame_packet hp.length).symm
  have hfour : 4 ≤ r.encode.payload.length := by
    have hlen : r.encode.payload.length = 4 + 4 * r.params.length := commandPacket_length _ _ _
    omega
  have hrequest : taken.request = some r := by
    rw [request_congr hsame (by rw [htaken]; exact hp.length) (by rw [htaken]; exact hfour), encode_request hr]
  refine ⟨d', hstep, hmachine, ?_⟩
  rw [htask, hrequest, hmachine]

theorem NetReachable.publish {K : Type} [Arith K] {numAxes : Int} {s t : Machine K} {r : Request}
    (hs : NetReachable numAxes s) (hr : r.Encodable) (h : SoemMotion.publish (some r) s = some t) :
    NetReachable numAxes t :=
  hs.tail (e := .frame r.encode.frame) ⟨.frame ((processFrame_encode hr s).trans h), trivial⟩

end SoemMotion
