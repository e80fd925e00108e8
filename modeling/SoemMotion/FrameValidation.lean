import SoemMotion.StreamReassembly

/-!
# Validation of received buffers

`AnalyseData` tests the length, the header, the data length and the checksum of a buffer, and reports what it finds, but
no test ends the function.  So every buffer it can read to the end is enqueued and counted, and a buffer is treated as
its tests say exactly if it passes them all and the ring has room for it inside the storage.
-/

namespace SoemMotion

/-! ### The tests -/

/-- The five tests of `AnalyseData`, for a buffer with the given data length. -/
structure PassesTests (data : List UInt8) (dataLength : Nat) : Prop where
  minLength : 10 ≤ data.length
  header : readU32 data 0 = some 0x55AA55AA
  dataLength_eq : readU16 data 4 = some dataLength
  maxLength : dataLength ≤ 64
  complete : dataLength + 10 ≤ data.length
  checksum : readU32 data (6 + dataLength) = (readBytes data 4 dataLength).map sumBytes

def ValidBuffer (data : List UInt8) : Prop := ∃ dataLength, PassesTests data dataLength

/-- What validation asks of a receiver: a valid buffer is enqueued and counted, any other leaves everything as it
was. -/
structure Validates (rx : Receiver) (data : List UInt8) (rx' : Receiver) : Prop where
  enqueues : (writeRingbuff rx.ring rx'.currentFrame = some (true, rx'.ring) ∧ rx'.sem = rx.sem + 1) ↔ ValidBuffer data
  rejects : ¬ ValidBuffer data → rx' = rx

/-! ### What `AnalyseData` does -/

theorem readBytes_of_le {data : List UInt8} {i n : Nat} (h : i + n ≤ data.length) :
    readBytes data i n = some ((data.drop i).take n) := by
  unfold readBytes
  rw [if_pos h]

/-- A valid buffer is read and written in bounds. -/
theorem PassesTests.parseFrame {data : List UInt8} {dataLength : Nat} (h : PassesTests data dataLength)
    (old : LinuxFrame) : ∃ frame, parseFrame old data = some frame := by
  have hcomplete := h.complete
  have hsummed : readBytes data 4 dataLength = _ := readBytes_of_le (by omega)
  have hbytes : readBytes data 6 dataLength = _ := readBytes_of_le (by omega)
  have hreceived := h.checksum
  rw [hsummed, Option.map_some] at hreceived
  have hread : ∃ p, readPacket data = some p := by
    unfold readPacket
    have hmax : ¬ 128 < dataLength := by
      have := h.maxLength
      omega
    simp only [Option.bind_eq_bind, h.header, h.dataLength_eq, hsummed, hreceived, hbytes, Option.bind_some]
    rw [if_neg hmax]
    exact ⟨_, rfl⟩
  obtain ⟨p, hp⟩ := hread
  rw [← parseFrame_packet old data] at hp
  obtain ⟨frame, hframe, -⟩ := Option.map_eq_some_iff.1 hp
  exact ⟨frame, hframe⟩

/-- Whatever is read to the end is counted. -/
theorem analyseData_spec {rx rx' : Receiver} {data : List UInt8} (h : analyseData rx data = some rx') :
    rx'.sem = rx.sem + 1 := by
  obtain ⟨frame, -, h⟩ := Option.bind_eq_some_iff.1 h
  obtain ⟨⟨stored, ring⟩, -, h⟩ := Option.bind_eq_some_iff.1 h
  cases h
  rfl

theorem writeRingbuff_stores_iff {ring : RingBuff} (frame : LinuxFrame) :
    (∃ ring', writeRingbuff ring frame = some (true, ring')) ↔ ring.length < bufferNum ∧ ring.tail < storageSlots := by
  unfold writeRingbuff
  split_ifs with hfull hstored
  · simp [not_lt.2 hfull]
  · simp [not_le.1 hfull, hstored]
  · simp [hstored]

/-- Reads, writes, ring, semaphore and frame under construction are as the tests ask exactly if the buffer passes them
and the ring has room, in a slot inside its storage. -/
theorem frameValidation_iff (rx : Receiver) (data : List UInt8) :
    (∃ rx', analyseData rx data = some rx' ∧ Validates rx data rx') ↔
      ValidBuffer data ∧ rx.ring.length < bufferNum ∧ rx.ring.tail < storageSlots := by
  constructor
  · rintro ⟨rx', hrx, henqueues, hrejects⟩
    have hsem := analyseData_spec hrx
    have hvalid : ValidBuffer data := by
      by_contra hinvalid
      rw [hrejects hinvalid] at hsem
      omega
    obtain ⟨hwrite, -⟩ := henqueues.2 hvalid
    exact ⟨hvalid, (writeRingbuff_stores_iff _).1 ⟨_, hwrite⟩⟩
  · rintro ⟨hvalid, hroom⟩
    obtain ⟨dataLength, htests⟩ := hvalid
    obtain ⟨frame, hframe⟩ := htests.parseFrame rx.currentFrame
    obtain ⟨ring, hring⟩ := (writeRingbuff_stores_iff frame).2 hroom
    refine ⟨{ ring := ring, sem := rx.sem + 1, currentFrame := frame }, ?_, ?_, ?_⟩
    · unfold analyseData
      simp [hframe, hring]
    · exact iff_of_true ⟨hring, rfl⟩ ⟨dataLength, htests⟩
    · intro hinvalid
      exact absurd ⟨dataLength, htests⟩ hinvalid

/-- Ten zero bytes: no header, but a length and a checksum that agree. -/
def zeroBuffer : List UInt8 := List.replicate 10 0

/-- Bytes without a header are enqueued and counted, and an empty buffer is read past its end. -/
theorem frameValidation_zeros : ¬ ValidBuffer zeroBuffer ∧ ¬ ValidBuffer [] ∧
    (∃ rx', analyseData startLink.rx zeroBuffer = some rx' ∧ rx'.sem = 1 ∧ rx'.ring.length = 1 ∧
      ¬ Validates startLink.rx zeroBuffer rx') ∧
    analyseData startLink.rx [] = none := by
  have hinvalid : ¬ ValidBuffer zeroBuffer := by
    rintro ⟨dataLength, h⟩
    have hheader := h.header
    revert hheader
    decide
  have hempty : ¬ ValidBuffer [] := by
    rintro ⟨dataLength, h⟩
    have hlength := h.minLength
    revert hlength
    decide
  refine ⟨hinvalid, hempty, ⟨_, rfl, rfl, rfl, ?_⟩, rfl⟩
  rintro ⟨-, hrejects⟩
  have hsem := congrArg Receiver.sem (hrejects hinvalid)
  cases hsem

end SoemMotion
