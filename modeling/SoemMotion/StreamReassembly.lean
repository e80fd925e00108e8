import SoemMotion.Hpsocket
import SoemMotion.Lib.Framing

/-!
# Reassembly of the received stream

The TCP client delivers the byte stream in order, cut into chunks at arbitrary places.  `AnalyseData` takes each chunk
for a frame that begins at its first byte: nothing is carried from one chunk to the next, and what follows the first
frame of a chunk is dropped.
-/

namespace SoemMotion

/-! ### Packets and their encoding -/

/-- The content of a frame. -/
structure Packet where
  header : Nat
  payload : List UInt8
  checksum : Nat
deriving DecidableEq

/-- Two bytes, the low one first. -/
def le16 (n : Nat) : List UInt8 := [UInt8.ofNat n, UInt8.ofNat (n / 256)]

def le32 (n : Nat) : List UInt8 := le16 n ++ le16 (n / 65536)

/-- The length and the data, from which the checksum is taken. -/
def Packet.body (p : Packet) : List UInt8 := le16 p.payload.length ++ p.payload

def Packet.encode (p : Packet) : List UInt8 := le32 p.header ++ (p.body ++ le32 p.checksum)

/-- A frame the controller may be sent; the checksum is the sum that `AnalyseData` computes. -/
structure Packet.WellFormed (p : Packet) : Prop where
  header : p.header = 0x55AA55AA
  length : p.payload.length ≤ 64
  checksum : p.checksum = sumBytes (p.body.take p.payload.length)

def LinuxFrame.packet (frame : LinuxFrame) : Packet where
  header := frame.header
  payload := (List.ofFn frame.payload).take frame.dataLength
  checksum := frame.checksum

@[simp] theorem le16_length (n : Nat) : (le16 n).length = 2 := rfl

@[simp] theorem le32_length (n : Nat) : (le32 n).length = 4 := rfl

theorem Packet.encode_length (p : Packet) : p.encode.length = 10 + p.payload.length := by
  simp only [Packet.encode, Packet.body, List.length_append, le16_length, le32_length]
  omega

/-! ### What `AnalyseData` reads -/

/-- The packet `AnalyseData` finds at the start of a chunk. -/
def readPacket (data : List UInt8) : Option Packet := do
  let header ← readU32 data 0
  let dataLength ← readU16 data 4
  let summed ← readBytes data 4 dataLength
  let _received ← readU32 data (6 + dataLength)
  let bytes ← readBytes data 6 dataLength
  if 128 < dataLength then none
  else return { header := header, payload := bytes, checksum := sumBytes summed }

theorem readBytes_length {data bytes : List UInt8} {i n : Nat} (h : readBytes data i n = some bytes) :
    bytes.length = n := by
  unfold readBytes at h
  split at h
  · rename_i hin
    cases h
    rw [List.length_take, List.length_drop]
    omega
  · cases h

theorem take_ofFn_getD (bytes : List UInt8) (old : Fin 128 → UInt8) (h : bytes.length ≤ 128) :
    (List.ofFn fun i : Fin 128 => (bytes[i.val]?).getD (old i)).take bytes.length = bytes := by
  apply List.ext_getElem
  · rw [List.length_take, List.length_ofFn]
    omega
  · intro i hi hi'
    rw [List.getElem_take, List.getElem_ofFn]
    simp [hi']

/-- The frame before a chunk does not matter for the packet made of it. -/
theorem parseFrame_packet (old : LinuxFrame) (data : List UInt8) :
    (parseFrame old data).map LinuxFrame.packet = readPacket data := by
  unfold parseFrame readPacket
  cases hheader : readU32 data 0 with
  | none => rfl
  | some header =>
    cases hlength : readU16 data 4 with
    | none => rfl
    | some dataLength =>
      dsimp only [Option.bind_eq_bind, Option.bind_some]
      cases readBytes data 4 dataLength with
      | none => rfl
      | some summed =>
        cases readU32 data (6 + dataLength) with
        | none => rfl
        | some received =>
          cases hbytes : readBytes data 6 dataLength with
          | none => rfl
          | some bytes =>
            dsimp only [Option.bind_some]
            by_cases hbig : 128 < dataLength
            · rw [if_pos hbig, if_pos hbig]
              rfl
            · rw [if_neg hbig, if_neg hbig]
              have hlen := readBytes_length hbytes
              have htake := take_ofFn_getD bytes old.payload (by omega)
              rw [hlen] at htake
              exact congrArg some (congrArg (Packet.mk header · (sumBytes summed)) htake)

theorem getElem?_append_add (pre data : List UInt8) (i : Nat) : (pre ++ data)[pre.length + i]? = data[i]? := by
  rw [List.getElem?_append_right (by omega)]
  congr 1
  omega

theorem readU16_append (pre data : List UInt8) (i : Nat) :
    readU16 (pre ++ data) (pre.length + i) = readU16 data i := by
  unfold readU16
  rw [Nat.add_assoc, getElem?_append_add, getElem?_append_add]

theorem readU32_append (pre data : List UInt8) (i : Nat) :
    readU32 (pre ++ data) (pre.length + i) = readU32 data i := by
  unfold readU32
  rw [Nat.add_assoc, readU16_append, readU16_append]

theorem readBytes_append (pre data : List UInt8) (i n : Nat) :
    readBytes (pre ++ data) (pre.length + i) n = readBytes data i n := by
  unfold readBytes
  have hdrop : (pre ++ data).drop (pre.length + i) = data.drop i := by
    rw [List.drop_append]
    simp
  rw [hdrop, List.length_append]
  by_cases h : i + n ≤ data.length
  · rw [if_pos h, if_pos (by omega)]
  · rw [if_neg h, if_neg (by omega)]

theorem readU16_le16 {n : Nat} (h : n < 65536) (rest : List UInt8) : readU16 (le16 n ++ rest) 0 = some n := by
  have h1 : (UInt8.ofNat n).toNat = n % 256 := UInt8.toNat_ofNat'
  have h2 : (UInt8.ofNat (n / 256)).toNat = n / 256 % 256 := UInt8.toNat_ofNat'
  show some ((UInt8.ofNat n).toNat + 256 * (UInt8.ofNat (n / 256)).toNat) = some n
  rw [h1, h2]
  congr 1
  omega

theorem readU32_le32 {n : Nat} (h : n < 2 ^ 32) (rest : List UInt8) : readU32 (le32 n ++ rest) 0 = some n := by
  have hlow : readU16 (le32 n ++ rest) 0 = some (n % 65536) := by
    have hmod : le16 n = le16 (n % 65536) := by
      unfold le16
      congr 1
      · apply UInt8.toNat_inj.1
        rw [UInt8.toNat_ofNat', UInt8.toNat_ofNat']
        omega
      · congr 1
        apply UInt8.toNat_inj.1
        rw [UInt8.toNat_ofNat', UInt8.toNat_ofNat']
        omega
    unfold le32
    rw [hmod, List.append_assoc]
    exact readU16_le16 (by omega) _
  have hhigh : readU16 (le32 n ++ rest) 2 = some (n / 65536) := by
    unfold le32
    rw [List.append_assoc]
    exact (readU16_append (le16 n) _ 0).trans (readU16_le16 (by omega) rest)
  unfold readU32
  rw [hlow, hhigh]
  show some (n % 65536 + 65536 * (n / 65536)) = some n
  congr 1
  omega

theorem readBytes_left (xs rest : List UInt8) {n : Nat} (h : n ≤ xs.length) :
    readBytes (xs ++ rest) 0 n = some (xs.take n) := by
  unfold readBytes
  rw [if_pos (by rw [List.length_append]; omega), List.drop_zero, List.take_append_of_le_length h]

theorem sumBytes_le (bytes : List UInt8) : sumBytes bytes ≤ 255 * bytes.length := by
  unfold sumBytes
  induction bytes with
  | nil => simp
  | cons b bytes ih =>
    rw [List.map_cons, List.sum_cons, List.length_cons]
    have := b.toNat_lt
    omega

/-- A well-formed packet is read back from its encoding. -/
theorem readPacket_encode {p : Packet} (h : p.WellFormed) : readPacket p.encode = some p := by
  have hlen := h.length
  have hheader : readU32 p.encode 0 = some p.header := readU32_le32 (by rw [h.header]; norm_num) _
  have hrest : ∀ i, readU16 p.encode (4 + i) = readU16 (p.body ++ le32 p.checksum) i := readU16_append _ _
  have hlength : readU16 p.encode 4 = some p.payload.length := by
    rw [hrest 0]
    unfold Packet.body
    rw [List.append_assoc]
    exact readU16_le16 (by omega) _
  have hbody : p.body.length = 2 + p.payload.length := List.length_append
  -- the sum is over as many bytes as the payload has, but from the length field on
  have hsummed : readBytes p.encode 4 p.payload.length = some (p.body.take p.payload.length) :=
    (readBytes_append (le32 p.header) _ 0 _).trans (readBytes_left _ _ (by omega))
  have hsum : sumBytes (p.body.take p.payload.length) < 2 ^ 32 := by
    have h1 := sumBytes_le (p.body.take p.payload.length)
    rw [List.length_take] at h1
    have h2 : min p.payload.length p.body.length ≤ 64 := by omega
    omega
  have hreceived : readU32 p.encode (6 + p.payload.length) = some p.checksum := by
    have h1 : p.encode = (le32 p.header ++ p.body) ++ le32 p.checksum := by
      unfold Packet.encode
      rw [List.append_assoc]
    have h2 : (le32 p.header ++ p.body).length = 6 + p.payload.length := by
      rw [List.length_append, le32_length, hbody]
      omega
    have h3 := readU32_append (le32 p.header ++ p.body) (le32 p.checksum) 0
    rw [h2, Nat.add_zero] at h3
    rw [h1, h3]
    have h4 := readU32_le32 (n := p.checksum) (by rw [h.checksum]; exact hsum) []
    rwa [List.append_nil] at h4
  have hbytes : readBytes p.encode 6 p.payload.length = some p.payload := by
    have h1 : p.encode = (le32 p.header ++ le16 p.payload.length) ++ (p.payload ++ le32 p.checksum) := by
      simp [Packet.encode, Packet.body]
    rw [h1]
    have h2 := readBytes_append (le32 p.header ++ le16 p.payload.length) (p.payload ++ le32 p.checksum) 0
      p.payload.length
    rw [readBytes_left _ _ (le_refl _), List.take_length] at h2
    exact h2
  unfold readPacket
  simp only [Option.bind_eq_bind, hheader, hlength, hsummed, hreceived, hbytes, Option.bind_some]
  rw [if_neg (by omega), ← h.checksum]
  rfl

theorem lt_of_readU32 {data : List UInt8} {i n : Nat} (h : readU32 data i = some n) : i + 4 ≤ data.length := by
  unfold readU32 at h
  obtain ⟨a, -, h⟩ := Option.bind_eq_some_iff.1 h
  obtain ⟨b, hb, -⟩ := Option.bind_eq_some_iff.1 h
  unfold readU16 at hb
  obtain ⟨c, -, hb⟩ := Option.bind_eq_some_iff.1 hb
  obtain ⟨d, hd, -⟩ := Option.bind_eq_some_iff.1 hb
  obtain ⟨hlt, -⟩ := List.getElem?_eq_some_iff.1 hd
  omega

/-- A chunk is at least as long as the packet read from it. -/
theorem encode_length_le {data : List UInt8} {p : Packet} (h : readPacket data = some p) :
    p.encode.length ≤ data.length := by
  unfold readPacket at h
  obtain ⟨header, -, h⟩ := Option.bind_eq_some_iff.1 h
  obtain ⟨dataLength, -, h⟩ := Option.bind_eq_some_iff.1 h
  obtain ⟨summed, -, h⟩ := Option.bind_eq_some_iff.1 h
  obtain ⟨received, hreceived, h⟩ := Option.bind_eq_some_iff.1 h
  obtain ⟨bytes, hbytes, h⟩ := Option.bind_eq_some_iff.1 h
  have hle := lt_of_readU32 hreceived
  have hlen := readBytes_length hbytes
  split at h
  · cases h
  · cases h
    rw [Packet.encode_length]
    show 10 + bytes.length ≤ data.length
    omega

/-! ### The ring -/

/-- The frames in the ring, oldest first. -/
def RingBuff.contents (ring : RingBuff) : List LinuxFrame :=
  (List.range ring.length).map fun k => ring.slots ((ring.head + k) % bufferNum)

structure RingBuff.WF (ring : RingBuff) : Prop where
  length_le : ring.length ≤ bufferNum
  head_lt : ring.head < bufferNum
  tail_eq : ring.tail = (ring.head + ring.length) % bufferNum

/-- A ring that is not full takes the frame behind the others. -/
theorem RingBuff.WF.put {ring : RingBuff} (h : ring.WF) (hroom : ring.length < bufferNum) (frame : LinuxFrame) :
    (ring.put frame).WF ∧ (ring.put frame).contents = ring.contents ++ [frame] := by
  have hlen := h.length_le
  have htail := h.tail_eq
  unfold bufferNum at hlen hroom htail
  refine ⟨⟨?_, h.head_lt, ?_⟩, ?_⟩
  · show ring.length + 1 ≤ 64
    omega
  · show (ring.tail + 1) % 64 = (ring.head + (ring.length + 1)) % 64
    omega
  · unfold RingBuff.contents RingBuff.put
    dsimp only
    rw [List.range_succ, List.map_append, List.map_singleton]
    congr 1
    · apply List.map_congr_left
      intro k hk
      have hk' := List.mem_range.1 hk
      rw [if_neg]
      unfold bufferNum
      omega
    · rw [h.tail_eq, if_pos rfl]

/-- The oldest frame of a ring that is not empty. -/
theorem RingBuff.WF.drop {ring : RingBuff} (h : ring.WF) (hne : ring.length ≠ 0) :
    ring.drop.WF ∧ ring.contents = ring.slots ring.head :: ring.drop.contents := by
  have hlen := h.length_le
  have hhead := h.head_lt
  have htail := h.tail_eq
  unfold bufferNum at hlen hhead htail
  refine ⟨⟨?_, ?_, ?_⟩, ?_⟩
  · show ring.length - 1 ≤ 64
    omega
  · show (ring.head + 1) % 64 < 64
    omega
  · show ring.tail = ((ring.head + 1) % 64 + (ring.length - 1)) % 64
    omega
  · unfold RingBuff.contents RingBuff.drop
    dsimp only
    obtain ⟨n, hn⟩ := Nat.exists_eq_succ_of_ne_zero hne
    rw [hn, List.range_succ_eq_map, List.map_cons, List.map_map]
    congr 1
    · congr 1
      unfold bufferNum
      omega
    · apply List.map_congr_left
      intro k _
      show ring.slots ((ring.head + (k + 1)) % bufferNum) =
        ring.slots (((ring.head + 1) % bufferNum + k) % bufferNum)
      congr 1
      unfold bufferNum
      omega

/-- The slots used so far lie inside the storage: the ring has not gone round. -/
structure RingBuff.Stored (ring : RingBuff) : Prop where
  tail_eq : ring.tail = ring.head + ring.length
  tail_le : ring.tail ≤ storageSlots

theorem storageSlots_eq : storageSlots = 32 := rfl

namespace RingBuff.Stored

variable {ring : RingBuff} (h : ring.Stored)

include h

theorem wf : ring.WF := by
  have htail := h.tail_eq
  have hle := h.tail_le
  rw [storageSlots_eq] at hle
  constructor <;> unfold bufferNum <;> omega

theorem room : ring.length < bufferNum := by
  have htail := h.tail_eq
  have hle := h.tail_le
  rw [storageSlots_eq] at hle
  unfold bufferNum
  omega

/-- A frame is stored up to the last slot of the storage, and the next one would lie behind it. -/
theorem write (frame : LinuxFrame) : ring.tail < storageSlots ∧ writeRingbuff ring frame = some (true, ring.put frame) ∧
      (ring.put frame).Stored ∧ (ring.put frame).tail = ring.tail + 1 ∨
    ring.tail = storageSlots ∧ writeRingbuff ring frame = none := by
  have htail := h.tail_eq
  have hnext : ring.tail < storageSlots → (ring.put frame).tail = ring.tail + 1 := by
    intro hlt
    rw [storageSlots_eq] at hlt
    show (ring.tail + 1) % 64 = ring.tail + 1
    omega
  unfold writeRingbuff
  rw [if_neg (not_le.2 h.room)]
  by_cases hlt : ring.tail < storageSlots
  · refine .inl ⟨hlt, if_pos hlt, ⟨?_, ?_⟩, hnext hlt⟩
    · rw [hnext hlt]
      show ring.tail + 1 = ring.head + (ring.length + 1)
      omega
    · rw [hnext hlt]
      exact hlt
  · exact .inr ⟨le_antisymm h.tail_le (not_lt.1 hlt), if_neg hlt⟩

/-- A frame that has been stored can be read. -/
theorem read (hne : ring.length ≠ 0) : readRingbuff ring = some (some (ring.slots ring.head), ring.drop) ∧
    ring.drop.Stored ∧ ring.drop.tail = ring.tail := by
  have htail := h.tail_eq
  have hle := h.tail_le
  rw [storageSlots_eq] at hle
  have hhead : ring.drop.head = ring.head + 1 := by
    show (ring.head + 1) % 64 = ring.head + 1
    omega
  unfold readRingbuff
  rw [if_neg hne, if_pos (by rw [storageSlots_eq]; omega)]
  refine ⟨rfl, ⟨?_, h.tail_le⟩, rfl⟩
  rw [hhead]
  show ring.tail = ring.head + 1 + (ring.length - 1)
  omega

end RingBuff.Stored

theorem readRingbuff_empty {ring : RingBuff} (hempty : ring.length = 0) : readRingbuff ring = some (none, ring) :=
  if_pos hempty

/-! ### A connection -/

/-- The receiver, and the frames `ProcessTask` has taken from its ring. -/
structure Link where
  rx : Receiver
  taken : List LinuxFrame

/-- A receive callback with a chunk of the stream, or a frame taken by `ProcessTask`. -/
inductive LinkEvent
  | receive (data : List UInt8)
  | take

def Link.step (l : Link) : LinkEvent → Option Link
  | .receive data => (onReceiveLinux l.rx data).map fun rx => { l with rx := rx }
  | .take =>
    match readRingbuff l.rx.ring with
    | none => none
    | some (none, _) => some l
    | some (some frame, ring) => some { rx := { l.rx with ring := ring }, taken := l.taken ++ [frame] }

def Link.run (l : Link) : List LinkEvent → Option Link
  | [] => some l
  | e :: es => (l.step e).bind fun l => l.run es

/-- All frames enqueued so far. -/
def Link.enqueued (l : Link) : List LinuxFrame := l.taken ++ l.rx.ring.contents

/-- The chunks delivered. -/
def chunks : List LinkEvent → List (List UInt8)
  | [] => []
  | .receive data :: es => data :: chunks es
  | .take :: es => chunks es

/-- A chunk is enqueued as the packet read from it, if there is one, and if the storage has a slot left. -/
theorem step_receive {l : Link} (h : l.rx.ring.Stored) (data : List UInt8) :
    (readPacket data = none ∨ l.rx.ring.tail = storageSlots) ∧ l.step (.receive data) = none ∨
      ∃ p l', readPacket data = some p ∧ l.step (.receive data) = some l' ∧ l'.rx.ring.Stored ∧
        l'.rx.ring.tail = l.rx.ring.tail + 1 ∧ l'.rx.ring.tail ≤ storageSlots ∧
        l'.enqueued.map LinuxFrame.packet = l.enqueued.map LinuxFrame.packet ++ [p] := by
  have hread := parseFrame_packet l.rx.currentFrame data
  have hstep : l.step (.receive data) = (analyseData l.rx data).map fun rx => { l with rx := rx } := rfl
  cases hparse : parseFrame l.rx.currentFrame data with
  | none =>
    rw [hparse] at hread
    refine .inl ⟨.inl hread.symm, ?_⟩
    rw [hstep]
    unfold analyseData
    rw [hparse]
    rfl
  | some frame =>
    rw [hparse] at hread
    rcases h.write frame with ⟨-, hwrite, hstored, htail⟩ | ⟨hfull, hwrite⟩
    · refine .inr ⟨frame.packet, { l with rx := ⟨l.rx.ring.put frame, l.rx.sem + 1, frame⟩ }, hread.symm, ?_, hstored,
        htail, hstored.tail_le, ?_⟩
      · rw [hstep]
        unfold analyseData
        simp [hparse, hwrite]
      · show (l.taken ++ (l.rx.ring.put frame).contents).map LinuxFrame.packet = _
        rw [(h.wf.put h.room frame).2, ← List.append_assoc, List.map_append]
        rfl
    · refine .inl ⟨.inr hfull, ?_⟩
      rw [hstep]
      unfold analyseData
      simp [hparse, hwrite]

theorem step_take {l : Link} (h : l.rx.ring.Stored) : ∃ l', l.step .take = some l' ∧ l'.rx.ring.Stored ∧
    l'.rx.ring.tail = l.rx.ring.tail ∧ l'.enqueued = l.enqueued := by
  by_cases hne : l.rx.ring.length = 0
  · refine ⟨l, ?_, h, rfl, rfl⟩
    unfold Link.step
    dsimp only
    rw [readRingbuff_empty hne]
  · obtain ⟨hread, hstored, htail⟩ := h.read hne
    refine ⟨{ rx := { l.rx with ring := l.rx.ring.drop }, taken := l.taken ++ [l.rx.ring.slots l.rx.ring.head] }, ?_,
      hstored, htail, ?_⟩
    · unfold Link.step
      dsimp only
      rw [hread]
    · unfold Link.enqueued
      dsimp only
      rw [(h.wf.drop hne).2, List.append_assoc]
      rfl

/-- A run enqueues the packets read from its chunks, one for each, and has no end with more chunks than slots left. -/
theorem run_enqueued {l : Link} (es : List LinkEvent) (h : l.rx.ring.Stored) :
    (l.run es).map (fun l' => l'.enqueued.map LinuxFrame.packet) =
      if l.rx.ring.tail + (chunks es).length ≤ storageSlots then
        ((chunks es).mapM readPacket).map fun ps => l.enqueued.map LinuxFrame.packet ++ ps
      else none := by
  induction es generalizing l with
  | nil =>
    rw [if_pos (show l.rx.ring.tail + (chunks []).length ≤ storageSlots from h.tail_le)]
    show some (l.enqueued.map LinuxFrame.packet) = some (l.enqueued.map LinuxFrame.packet ++ [])
    rw [List.append_nil]
  | cons e es ih =>
    cases e with
    | receive data =>
      have hrun : l.run (.receive data :: es) = (l.step (.receive data)).bind fun l => l.run es := rfl
      have hchunks : chunks (.receive data :: es) = data :: chunks es := rfl
      rw [hrun, hchunks, List.length_cons, List.mapM_cons]
      rcases step_receive h data with ⟨hno, hstep⟩ | ⟨p, l', hsome, hstep, hstored, htail, hle, henq⟩
      · rw [hstep]
        rcases hno with hnone | hfull
        · rw [hnone]
          split <;> rfl
        · rw [if_neg (by omega)]
          rfl
      · rw [hstep, hsome, Option.bind_some, ih hstored, henq, htail, Nat.add_right_comm, ← Nat.add_assoc]
        split
        · cases (chunks es).mapM readPacket with
          | none => rfl
          | some ps => exact congrArg some (List.append_assoc _ _ _)
        · rfl
    | take =>
      obtain ⟨l', hstep, hstored, htail, henq⟩ := step_take h
      show Option.map _ ((l.step .take).bind fun l => l.run es) = _
      rw [hstep, Option.bind_some, ih hstored, henq, htail]
      rfl

/-- The frames enqueued are those sent exactly when every chunk is one frame, and the storage has a slot for each. -/
theorem reassembly_iff {l : Link} (hstored : l.rx.ring.Stored) (hempty : l.enqueued = []) {ps : List Packet}
    (hps : ∀ p ∈ ps, p.WellFormed) {es : List LinkEvent}
    (hcut : (chunks es).flatten = (ps.map Packet.encode).flatten) :
    (∃ l', l.run es = some l' ∧ l'.enqueued.map LinuxFrame.packet = ps) ↔
      chunks es = ps.map Packet.encode ∧ l.rx.ring.tail + ps.length ≤ storageSlots := by
  have hrun := run_enqueued es hstored
  rw [hempty] at hrun
  have hmap : (∃ l', l.run es = some l' ∧ l'.enqueued.map LinuxFrame.packet = ps) ↔
      (chunks es).mapM readPacket = some ps ∧ l.rx.ring.tail + (chunks es).length ≤ storageSlots := by
    rw [← Option.map_eq_some_iff, hrun]
    split
    · rename_i hroom
      rw [Option.map_eq_some_iff]
      constructor
      · rintro ⟨qs, hqs, rfl⟩
        exact ⟨hqs, hroom⟩
      · rintro ⟨hqs, -⟩
        exact ⟨ps, hqs, rfl⟩
    · rename_i hroom
      exact ⟨fun h => (by cases h), fun h => absurd h.2 hroom⟩
  rw [hmap, Lib.mapM_decode_eq_iff (fun p hp => readPacket_encode (hps p hp)) (fun _ _ => encode_length_le) hcut]
  refine and_congr_right fun hchunks => ?_
  rw [hchunks, List.length_map]

/-- A connection before the first byte. -/
def startLink : Link where
  rx :=
    { ring := { slots := fun _ => ⟨0, 0, fun _ => 0, 0⟩, head := 0, tail := 0, length := 0 }
      sem := 0
      currentFrame := ⟨0, 0, fun _ => 0, 0⟩ }
  taken := []

/-- A command frame: code 12 for axis 1. -/
def abortPacket : Packet := ⟨0x55AA55AA, [12, 0, 1, 0, 0, 0, 0, 0], 21⟩

theorem startLink_stored : startLink.rx.ring.Stored := ⟨rfl, by decide⟩

theorem reassembly_iff_two : (∃ l', startLink.run [.receive abortPacket.encode, .take, .receive abortPacket.encode] =
      some l' ∧ l'.enqueued.map LinuxFrame.packet = [abortPacket, abortPacket]) ↔
    [abortPacket.encode, abortPacket.encode] = [abortPacket, abortPacket].map Packet.encode ∧ 0 + 2 ≤ storageSlots :=
  reassembly_iff (l := startLink) startLink_stored rfl
    (by
      intro p hp
      have h : p = abortPacket := by simpa using hp
      rw [h]
      exact ⟨rfl, by decide, by decide⟩)
    rfl

/-- Two frames delivered in one chunk: only the first is enqueued. -/
theorem reassembly_merged : ∃ l', startLink.run [.receive (abortPacket.encode ++ abortPacket.encode)] = some l' ∧
    startLink.rx.ring.length < bufferNum ∧ abortPacket.WellFormed ∧
    (chunks [.receive (abortPacket.encode ++ abortPacket.encode)]).flatten =
      ([abortPacket, abortPacket].map Packet.encode).flatten ∧
    l'.enqueued.map LinuxFrame.packet = [abortPacket] ∧
    l'.enqueued.map LinuxFrame.packet ≠ [abortPacket, abortPacket] := by
  have hrun := run_enqueued [.receive (abortPacket.encode ++ abortPacket.encode)] startLink_stored
  have hread : (chunks [.receive (abortPacket.encode ++ abortPacket.encode)]).mapM readPacket =
      some [abortPacket] := by decide
  rw [if_pos (by decide), hread] at hrun
  obtain ⟨l', hl', henq⟩ := Option.map_eq_some_iff.1 hrun
  have henq' : l'.enqueued.map LinuxFrame.packet = [abortPacket] := henq
  refine ⟨l', hl', startLink_stored.room, ⟨rfl, by decide, by decide⟩, by decide, henq', ?_⟩
  rw [henq']
  decide

end SoemMotion
