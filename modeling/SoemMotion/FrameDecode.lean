import SoemMotion.Cycle
import SoemMotion.Downlink

/-!
# Decoding a frame

The payload buffer is reused from frame to frame without being cleared, and the length of the parameters is an unsigned
difference.  From a payload of four bytes on, `ProcessTask` reads nothing but the payload.  A shorter payload has
parameters of nearly `2 ^ 64` bytes: its command is published with whatever the frames before left behind it, unless
the bytes it does have name no command.
-/

namespace SoemMotion

variable {K : Type} [Arith K]

/-! ### Payloads -/

/-- The command of a payload, the bytes of its code that it lacks being `b0` and `b1`. -/
def payloadCode (payload : List UInt8) (b0 b1 : UInt8) : CmdCode :=
  CmdCode.ofIndex ((payload.getD 0 b0).toNat + 256 * (payload.getD 1 b1).toNat)

/-- The payload is shorter than the header of a command and its parameter struct. -/
def TooShort (payload : List UInt8) : Prop :=
  payload.length < 4 ∨ payload.length < 4 + (payloadCode payload 0 0).paramSize

/-- Whatever follows it, the payload names no command. -/
def NamesNoCommand (payload : List UInt8) : Prop := ∀ b0 b1, payloadCode payload b0 b1 = .unknown

/-- In every history that ends with the frame, `ProcessTask` publishes one and the same request for it, and none if
the frame is too short. -/
def DecodesOwnFrame (K : Type) [Arith K] (numAxes : Int) (p : Packet) : Prop :=
  ∃ r : Option Request, (TooShort p.payload → r = none) ∧
    ∀ d : Downlink K, DownlinkReachable numAxes d → d.Takes p →
      (processTask d).map Downlink.machine = publish r d.machine

/-! ### Frames of a packet -/

theorem packet_dataLength {frame : LinuxFrame} {p : Packet} (h : frame.packet = p) (hlen : p.payload.length ≤ 64) :
    frame.dataLength = p.payload.length := by
  have htake : p.payload = (List.ofFn frame.payload).take frame.dataLength := by
    rw [← h]
    rfl
  have hl := congrArg List.length htake
  rw [List.length_take, List.length_ofFn] at hl
  omega

theorem packet_byte {frame : LinuxFrame} {p : Packet} (h : frame.packet = p) (hlen : p.payload.length ≤ 64) {i : Nat}
    (hi : i < 128) : frame.byte i = (p.payload.getD i (frame.payload ⟨i, hi⟩)).toNat := by
  have htake : p.payload = (List.ofFn frame.payload).take frame.dataLength := by
    rw [← h]
    rfl
  have hdata := packet_dataLength h hlen
  unfold LinuxFrame.byte
  rw [dif_pos hi]
  by_cases hin : i < p.payload.length
  · have hget : p.payload[i]? = some (frame.payload ⟨i, hi⟩) := by
      rw [htake, List.getElem?_take_of_lt (by omega), List.getElem?_ofFn, dif_pos hi]
    rw [List.getD_eq_getElem?_getD, hget]
    rfl
  · have hget : p.payload[i]? = none := List.getElem?_eq_none (by omega)
    rw [List.getD_eq_getElem?_getD, hget]
    rfl

theorem packet_code {frame : LinuxFrame} {p : Packet} (h : frame.packet = p) (hlen : p.payload.length ≤ 64) :
    CmdCode.ofIndex (frame.u16 0) = payloadCode p.payload (frame.payload 0) (frame.payload 1) := by
  have h0 := packet_byte h hlen (i := 0) (by omega)
  have h1 := packet_byte h hlen (i := 1) (by omega)
  show CmdCode.ofIndex (frame.byte 0 + 256 * frame.byte 1) = _
  rw [h0, h1]
  rfl

/-- Inside a list the default does not matter. -/
theorem getD_of_lt {bytes : List UInt8} {i : Nat} (h : i < bytes.length) (b c : UInt8) :
    bytes.getD i b = bytes.getD i c := by
  have hget : bytes[i]? = some bytes[i] := List.getElem?_eq_getElem h
  simp only [List.getD_eq_getElem?_getD, hget, Option.getD_some]

theorem payloadCode_long {payload : List UInt8} (h : 2 ≤ payload.length) (b0 b1 c0 c1 : UInt8) :
    payloadCode payload b0 b1 = payloadCode payload c0 c1 := by
  unfold payloadCode
  rw [getD_of_lt (by omega) b0 c0, getD_of_lt (by omega) b1 c1]

/-- Frames that agree up to `n` have the same numbers there. -/
theorem u16_congr {f g : LinuxFrame} {n : Nat} (h : ∀ i < n, f.byte i = g.byte i) {i : Nat} (hi : i + 2 ≤ n) :
    f.u16 i = g.u16 i := by
  unfold LinuxFrame.u16
  rw [h i (by omega), h (i + 1) (by omega)]

theorem param_congr {f g : LinuxFrame} {n : Nat} (h : ∀ i < n, f.byte i = g.byte i) {k : Nat} (hk : 8 + 4 * k ≤ n) :
    f.param k = g.param k := by
  have hlow := u16_congr h (i := 4 + 4 * k) (by omega)
  have hhigh := u16_congr h (i := 4 + 4 * k + 2) (by omega)
  unfold LinuxFrame.param LinuxFrame.i32
  rw [hlow, hhigh]

theorem decoded_congr {f g : LinuxFrame} {n : Nat} (h : ∀ i < n, f.byte i = g.byte i)
    (hn : 4 + (CmdCode.ofIndex (f.u16 0)).paramSize ≤ n) : f.decoded = g.decoded := by
  have hcode : f.u16 0 = g.u16 0 := u16_congr h (by omega)
  have haxis : f.u16 2 = g.u16 2 := u16_congr h (by omega)
  have hparam : ∀ k, 4 + 4 * k ≤ (CmdCode.ofIndex (f.u16 0)).paramSize → f.param k = g.param k :=
    fun k hk => param_congr h (by omega)
  unfold LinuxFrame.decoded
  rw [← hcode, haxis]
  cases hc : CmdCode.ofIndex (f.u16 0)
  case downloadsConfig =>
    rw [hc] at hparam
    simp only [hparam 2 (by decide), hparam 5 (by decide), hparam 7 (by decide), hparam 8 (by decide),
      hparam 10 (by decide), hparam 12 (by decide), hparam 13 (by decide)]
  case jogCont =>
    rw [hc] at hparam
    simp only [hparam 0 (by decide), hparam 1 (by decide), hparam 3 (by decide)]
  case jogIncr =>
    rw [hc] at hparam
    simp only [hparam 0 (by decide), hparam 2 (by decide), hparam 4 (by decide), hparam 5 (by decide)]
  case jogAbs =>
    rw [hc] at hparam
    simp only [hparam 0 (by decide), hparam 2 (by decide), hparam 4 (by decide)]
  case setLine =>
    rw [hc] at hparam
    have hsize : (CmdCode.setLine).paramSize = 48 := rfl
    have hpos : ∀ i : Fin 3, f.param (6 + i.val) = g.param (6 + i.val) := fun i => hparam _ (by omega)
    have hsel : ∀ i : Fin 3, f.param (9 + i.val) = g.param (9 + i.val) := fun i => hparam _ (by omega)
    simp only [hparam 0 (by decide), hparam 1 (by decide), hparam 2 (by decide), hparam 4 (by decide),
      hparam 5 (by decide), hpos, hsel]
  all_goals rfl

theorem paramDataLength_of_le {frame : LinuxFrame} (h : 4 ≤ frame.dataLength) (hmax : frame.dataLength ≤ 64) :
    frame.paramDataLength = frame.dataLength - 4 := by
  unfold LinuxFrame.paramDataLength
  omega

/-- From four bytes on the payload alone decides. -/
theorem request_congr {f g : LinuxFrame} (h : f.packet = g.packet) (hlen : f.packet.payload.length ≤ 64)
    (hfour : 4 ≤ f.packet.payload.length) : f.request = g.request := by
  have hf := packet_dataLength (p := f.packet) rfl hlen
  have hg := packet_dataLength (p := f.packet) h.symm hlen
  have hbyte : ∀ i < f.packet.payload.length, f.byte i = g.byte i := by
    intro i hi
    have hsmall : i < 128 := by omega
    rw [packet_byte (p := f.packet) rfl hlen hsmall, packet_byte (p := f.packet) h.symm hlen hsmall,
      getD_of_lt hi _ (g.payload ⟨i, hsmall⟩)]
  have hcode : f.u16 0 = g.u16 0 := u16_congr hbyte (by omega)
  have hpf : f.paramDataLength = f.dataLength - 4 := paramDataLength_of_le (by omega) (by omega)
  have hpg : g.paramDataLength = g.dataLength - 4 := paramDataLength_of_le (by omega) (by omega)
  unfold LinuxFrame.request
  rw [← hcode, hpf, hpg, hf, hg]
  by_cases hshort : f.packet.payload.length - 4 < (CmdCode.ofIndex (f.u16 0)).paramSize
  · rw [if_pos hshort, if_pos hshort]
  · rw [if_neg hshort, if_neg hshort, decoded_congr hbyte (by omega)]

/-- The frame that has nothing but the packet. -/
def Packet.frame (p : Packet) : LinuxFrame where
  header := p.header
  dataLength := p.payload.length
  payload := fun i => p.payload.getD i.val 0
  checksum := p.checksum

theorem Packet.frame_packet {p : Packet} (h : p.payload.length ≤ 64) : p.frame.packet = p := by
  have htake := take_ofFn_getD p.payload (fun _ => 0) (by omega)
  simp only [← List.getD_eq_getElem?_getD] at htake
  exact congrArg (Packet.mk p.header · p.checksum) htake

/-! ### What `ProcessTask` does with the next frame -/

theorem processTask_takes {d : Downlink K} {p : Packet} (h : d.Takes p) : ∃ frame : LinuxFrame,
    frame.packet = p ∧ (processTask d).map Downlink.machine = publish frame.request d.machine := by
  obtain ⟨hsem, ring, frame, hread, hp⟩ := h
  refine ⟨frame, hp, ?_⟩
  unfold processTask
  rw [if_neg hsem, hread]
  dsimp only
  rw [Option.map_map, ← processFrame_eq]
  exact Option.map_id'

theorem decodesOwnFrame_of_long {p : Packet} (hp : p.WellFormed) (numAxes : Int) (h : 4 ≤ p.payload.length) :
    DecodesOwnFrame K numAxes p := by
  have hlen := hp.length
  have hpacket := Packet.frame_packet hlen
  refine ⟨p.frame.request, ?_, ?_⟩
  · intro hshort
    have hcode := packet_code hpacket hlen
    rw [payloadCode_long (by omega) _ _ 0 0] at hcode
    have hdata : p.frame.paramDataLength = p.payload.length - 4 := paramDataLength_of_le h hlen
    have hparam : p.payload.length < 4 + (payloadCode p.payload 0 0).paramSize := by
      rcases hshort with hshort | hshort
      · omega
      · exact hshort
    unfold LinuxFrame.request
    rw [hcode, hdata, if_pos (by omega)]
  · intro d _ htakes
    obtain ⟨frame, hframe, htask⟩ := processTask_takes htakes
    have hsame : frame.request = p.frame.request := by
      refine request_congr (hframe.trans hpacket.symm) ?_ ?_
      · rw [hframe]
        exact hlen
      · rw [hframe]
        exact h
    rw [htask, hsame]

theorem decodesOwnFrame_of_unknown {p : Packet} (hp : p.WellFormed) (numAxes : Int) (h : NamesNoCommand p.payload) :
    DecodesOwnFrame K numAxes p := by
  refine ⟨none, fun _ => rfl, ?_⟩
  intro d _ htakes
  obtain ⟨frame, hframe, htask⟩ := processTask_takes htakes
  have hcode := packet_code hframe hp.length
  rw [h] at hcode
  have hnone : frame.request = none := by
    unfold LinuxFrame.request LinuxFrame.decoded
    rw [hcode]
    split <;> rfl
  rw [htask, hnone]

/-! ### Histories with a frame that is too short -/

/-- What a received buffer does not fill keeps the bytes of the frame before. -/
theorem parseFrame_stale {old frame : LinuxFrame} {data : List UInt8} (h : parseFrame old data = some frame)
    {i : Fin 128} (hi : frame.dataLength ≤ i.val) : frame.payload i = old.payload i := by
  unfold parseFrame at h
  obtain ⟨header, -, h⟩ := Option.bind_eq_some_iff.1 h
  obtain ⟨dataLength, -, h⟩ := Option.bind_eq_some_iff.1 h
  obtain ⟨summed, -, h⟩ := Option.bind_eq_some_iff.1 h
  obtain ⟨received, -, h⟩ := Option.bind_eq_some_iff.1 h
  obtain ⟨bytes, hbytes, h⟩ := Option.bind_eq_some_iff.1 h
  have hlen := readBytes_length hbytes
  by_cases hbig : 128 < dataLength
  · rw [if_pos hbig] at h
    cases h
  · rw [if_neg hbig] at h
    cases h
    have hnone : bytes[i.val]? = none := List.getElem?_eq_none (by rw [hlen]; exact hi)
    show (bytes[i.val]?).getD (old.payload i) = old.payload i
    rw [hnone]
    rfl

/-- Receiving a frame while the ring is empty and its storage has a slot left. -/
theorem receive_step {d : Downlink K} {p : Packet} (hp : p.WellFormed) (hstored : d.rx.ring.Stored)
    (hempty : d.rx.ring.length = 0) (hslot : d.rx.ring.tail < storageSlots) : ∃ d' frame,
      DownlinkStep d (.receive p.encode) d' ∧ d'.machine = d.machine ∧ d'.rx.sem ≠ 0 ∧ d'.rx.currentFrame = frame ∧
      parseFrame d.rx.currentFrame p.encode = some frame ∧ frame.packet = p ∧
      ∃ ring, readRingbuff d'.rx.ring = some (some frame, ring) ∧ ring.Stored ∧ ring.length = 0 ∧
        ring.tail = d.rx.ring.tail + 1 := by
  have hread := parseFrame_packet d.rx.currentFrame p.encode
  rw [readPacket_encode hp] at hread
  obtain ⟨frame, hframe, hpacket⟩ := Option.map_eq_some_iff.1 hread
  rcases hstored.write frame with ⟨-, hwrite, hstored', htail⟩ | ⟨hfull, -⟩
  · have hone : (d.rx.ring.put frame).length = 1 := congrArg (· + 1) hempty
    obtain ⟨hread', hstored'', htail'⟩ := hstored'.read (by rw [hone]; exact one_ne_zero)
    have hfirst : (d.rx.ring.put frame).slots (d.rx.ring.put frame).head = frame := by
      have heq := hstored.tail_eq
      refine if_pos ?_
      show d.rx.ring.head = d.rx.ring.tail
      omega
    rw [hfirst] at hread'
    refine ⟨{ d with rx := ⟨d.rx.ring.put frame, d.rx.sem + 1, frame⟩ }, frame, .receive ?_, rfl, Nat.succ_ne_zero _,
      rfl, hframe, hpacket, _, hread', hstored'', ?_, htail'.trans htail⟩
    · show analyseData d.rx p.encode = _
      unfold analyseData
      simp [hframe, hwrite]
    · show (d.rx.ring.put frame).length - 1 = 0
      rw [hone]
  · omega

theorem request_command_commandNum (r : Request) (cmd : Command K) :
    (r.command cmd).commandNum = Arith.i32 K (cmd.commandNum + 1) := by
  cases r <;> rfl

theorem publish_commandNum {r : Request} {s t : Machine K} (h : publish (some r) s = some t) :
    t.command.commandNum = Arith.i32 K (s.command.commandNum + 1) := by
  obtain ⟨u, -, rfl⟩ := Option.map_eq_some_iff.1 h
  exact request_command_commandNum r s.command

theorem initMachine_command (numAxes : Int) : (initMachine numAxes : Machine K).command = initCommand := by
  obtain ⟨_, _, _, _, _, _, _, h⟩ := initMachine_eq (K := K) numAxes
  rw [h]
  rfl

/-- A request for coordinated mode. -/
def coordPacket : Packet := ⟨0x55AA55AA, [16, 0, 0, 0, 0, 0, 0, 0], 24⟩

theorem coordPacket_wellFormed : coordPacket.WellFormed := ⟨rfl, by decide, by decide⟩

/-- After a request for coordinated mode its code is left in the payload buffer, and one command has been published. -/
theorem coordPacket_history (K : Type) [Arith K] (numAxes : Int) : ∃ d : Downlink K, DownlinkReachable numAxes d ∧
    d.rx.ring.Stored ∧ d.rx.ring.length = 0 ∧ d.rx.ring.tail = 1 ∧ d.machine.command.commandNum = 1 ∧
    d.rx.currentFrame.payload 0 = 16 ∧ d.rx.currentFrame.payload 1 = 0 := by
  obtain ⟨d, frame, hstep, hmachine, hsem, hcurrent, hparse, hpacket, ring, hread, hstored, hlen, htail⟩ :=
    receive_step (d := (startDownlink numAxes : Downlink K)) coordPacket_wellFormed startLink_stored rfl
      (show 0 < storageSlots by decide)
  have hframe := Packet.frame_packet (p := coordPacket) (by decide)
  have hrequest : frame.request = some (.plain .setCoord 0) := by
    rw [request_congr (hpacket.trans hframe.symm) (by rw [hpacket]; decide) (by rw [hpacket]; decide)]
    rfl
  have hbyte : ∀ i : Fin 128, i.val < 8 → frame.payload i = coordPacket.payload.getD i.val 0 := by
    intro i hi
    have h := packet_byte hpacket (by decide) i.isLt
    unfold LinuxFrame.byte at h
    rw [dif_pos i.isLt] at h
    rw [UInt8.toNat_inj.1 h]
    exact getD_of_lt hi _ _
  have hpublish : processFrame d.machine frame =
      some { d.machine with command := (Request.plain .setCoord 0).command d.machine.command } := by
    rw [processFrame_eq, hrequest]
    rfl
  have htask : processTask d = some
      { rx := { d.rx with sem := d.rx.sem - 1, ring := ring }
        machine := { d.machine with command := (Request.plain .setCoord 0).command d.machine.command } } := by
    unfold processTask
    rw [if_neg hsem, hread]
    dsimp only
    rw [hpublish]
    rfl
  refine ⟨_, ((Lib.Reaches.refl _).tail hstep).tail (.process htask), hstored, hlen, htail, ?_, ?_, ?_⟩
  · have hnum : d.machine.command.commandNum = 0 := by
      rw [hmachine]
      show (initMachine numAxes : Machine K).command.commandNum = 0
      rw [initMachine_command]
      rfl
    show Arith.i32 K (d.machine.command.commandNum + 1) = 1
    rw [hnum]
    exact Arith.i32_of_range _ (by norm_num) (by norm_num)
  · show d.rx.currentFrame.payload 0 = 16
    rw [hcurrent, hbyte 0 (by decide)]
    rfl
  · show d.rx.currentFrame.payload 1 = 0
    rw [hcurrent, hbyte 1 (by decide)]
    rfl

theorem decoded_isSome {frame : LinuxFrame} (h : CmdCode.ofIndex (frame.u16 0) ≠ .unknown) :
    ∃ r, frame.decoded = some r := by
  unfold LinuxFrame.decoded
  revert h
  generalize frame.u16 0 = n
  intro h
  unfold CmdCode.ofIndex at h ⊢
  split at h
  all_goals first | exact ⟨_, rfl⟩ | exact absurd rfl h

/-- The code of a payload that can be completed to that of a command, after a request for coordinated mode. -/
theorem payloadCode_completed {payload : List UInt8} (h : ¬ NamesNoCommand payload) :
    payloadCode payload 16 0 ≠ .unknown := by
  rcases payload with _ | ⟨a, _ | ⟨b, payload⟩⟩
  · decide
  · intro hunknown
    apply h
    intro b0 b1
    show CmdCode.ofIndex (a.toNat + 256 * b1.toNat) = .unknown
    have ha : CmdCode.ofIndex (a.toNat + 256 * 0) = .unknown := hunknown
    by_cases hb : b1.toNat = 0
    · rw [hb]
      exact ha
    · have hbig : 256 ≤ a.toNat + 256 * b1.toNat := by omega
      generalize a.toNat + 256 * b1.toNat = n at hbig
      unfold CmdCode.ofIndex
      split
      all_goals first | omega | rfl
  · intro hunknown
    apply h
    intro b0 b1
    rw [← hunknown]
    exact payloadCode_long (by simp) _ _ _ _

/-- A frame too short for the header of a command publishes one, if its bytes can be completed to a command. -/
theorem not_decodesOwnFrame {p : Packet} (hp : p.WellFormed) (numAxes : Int) (hshort : p.payload.length < 4)
    (hcompletes : ¬ NamesNoCommand p.payload) : ¬ DecodesOwnFrame K numAxes p := by
  rintro ⟨r, hnone, hsame⟩
  rw [hnone (.inl hshort)] at hsame
  -- the frame before was a request for coordinated mode, whose code is still in the buffer
  obtain ⟨d, hd, hstored, hempty, htail, hnum, h0, h1⟩ := coordPacket_history K numAxes
  obtain ⟨d', frame, hstep, hmachine, hsem, -, hparse, hpacket, ring, hread, -⟩ :=
    receive_step hp hstored hempty (by rw [htail]; decide)
  have hlen := hp.length
  have hdata := packet_dataLength hpacket hlen
  have hpayload : payloadCode p.payload (frame.payload 0) (frame.payload 1) = payloadCode p.payload 16 0 := by
    by_cases htwo : 2 ≤ p.payload.length
    · exact payloadCode_long htwo _ _ _ _
    · have hs1 : frame.payload 1 = 0 := (parseFrame_stale hparse (i := 1) (by
        show frame.dataLength ≤ 1
        omega)).trans h1
      by_cases hone : p.payload.length = 0
      · have hs0 : frame.payload 0 = 16 := (parseFrame_stale hparse (i := 0) (by
          show frame.dataLength ≤ 0
          omega)).trans h0
        rw [hs0, hs1]
      · unfold payloadCode
        rw [hs1, getD_of_lt (by omega) _ 16]
  have hcode : CmdCode.ofIndex (frame.u16 0) ≠ .unknown := by
    rw [packet_code hpacket hlen, hpayload]
    exact payloadCode_completed hcompletes
  obtain ⟨q, hq⟩ := decoded_isSome hcode
  have hrequest : frame.request = some q := by
    have hsize : (CmdCode.ofIndex (frame.u16 0)).paramSize ≤ 56 := by
      cases CmdCode.ofIndex (frame.u16 0) <;> decide
    have hparam : 56 ≤ frame.paramDataLength := by
      unfold LinuxFrame.paramDataLength
      omega
    unfold LinuxFrame.request
    rw [if_neg (by omega), hq]
  have htakes : d'.Takes p := ⟨hsem, ring, frame, hread, hpacket⟩
  have hlaw := hsame d' (hd.tail hstep) htakes
  have htask : (processTask d').map Downlink.machine = publish (some q) d'.machine := by
    unfold processTask
    rw [if_neg hsem, hread]
    dsimp only
    rw [Option.map_map, ← hrequest, ← processFrame_eq]
    exact Option.map_id'
  have hpublish : publish (some q) d'.machine = some d'.machine := htask.symm.trans hlaw
  have hnext := publish_commandNum hpublish
  rw [hmachine, hnum, Arith.i32_of_range _ (by norm_num) (by norm_num)] at hnext
  omega

/-! ### Main result -/

/-- A frame is decoded from its own bytes exactly if it has the header of a command or names none. -/
theorem decodesOwnFrame_iff {p : Packet} (hp : p.WellFormed) (numAxes : Int) :
    DecodesOwnFrame K numAxes p ↔ 4 ≤ p.payload.length ∨ NamesNoCommand p.payload := by
  constructor
  · intro h
    by_contra hneither
    rw [not_or] at hneither
    exact not_decodesOwnFrame hp numAxes (by omega) hneither.2 h
  · rintro (hlong | hunknown)
    · exact decodesOwnFrame_of_long hp numAxes hlong
    · exact decodesOwnFrame_of_unknown hp numAxes hunknown

theorem decodesOwnFrame_iff_abort : DecodesOwnFrame ℝ 3 abortPacket ↔
    4 ≤ abortPacket.payload.length ∨ NamesNoCommand abortPacket.payload :=
  decodesOwnFrame_iff ⟨rfl, by decide, by decide⟩ 3

/-- A frame without payload repeats the command of an earlier frame. -/
theorem decodesOwnFrame_empty : (⟨0x55AA55AA, [], 0⟩ : Packet).WellFormed ∧ TooShort [] ∧
    ¬ DecodesOwnFrame ℝ 3 ⟨0x55AA55AA, [], 0⟩ := by
  have hwf : (⟨0x55AA55AA, [], 0⟩ : Packet).WellFormed := ⟨rfl, by decide, by decide⟩
  refine ⟨hwf, .inl (by decide), not_decodesOwnFrame hwf 3 (by decide) ?_⟩
  intro hunknown
  exact absurd (hunknown 16 0) (by decide)

end SoemMotion
