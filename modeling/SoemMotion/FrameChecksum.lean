import SoemMotion.FrameValidation

/-!
# What the checksum covers

`AnalyseData` sums `data_length` bytes from the length field on: the two bytes of that field and all but the last two
bytes of the payload.  A change of one byte is seen exactly if it is among those (`corruption_seen_iff`).
-/

namespace SoemMotion

/-! ### One byte changed -/

section Set

variable {data : List UInt8} {k : Nat} {b : UInt8}

theorem readU16_set {i : Nat} (h : i + 1 < k ∨ k < i) : readU16 (data.set k b) i = readU16 data i := by
  unfold readU16
  rw [List.getElem?_set_ne (by omega), List.getElem?_set_ne (by omega)]

theorem readU32_set {i : Nat} (h : i + 3 < k ∨ k < i) : readU32 (data.set k b) i = readU32 data i := by
  unfold readU32
  rw [readU16_set (by omega), readU16_set (by omega)]

/-- The sum changes by what the byte does. -/
theorem sumBytes_set (h : k < data.length) : sumBytes (data.set k b) + data[k].toNat = sumBytes data + b.toNat := by
  unfold sumBytes
  have hold : data = data.take k ++ data[k] :: data.drop (k + 1) := by
    rw [List.getElem_cons_drop, List.take_append_drop]
  have hsum : (data.map UInt8.toNat).sum = _ := congrArg (fun l => (List.map UInt8.toNat l).sum) hold
  rw [hsum, List.set_eq_take_append_cons_drop, if_pos h]
  simp only [List.map_append, List.map_cons, List.sum_append, List.sum_cons]
  omega

/-- The summed bytes of a changed buffer. -/
theorem summed_set {n i : Nat} : ((data.set (6 + i) b).drop 4).take n = ((data.drop 4).take n).set (i + 2) b := by
  rw [List.drop_set, if_neg (by omega), List.take_set]
  congr 1
  omega

end Set

/-- The checksum of the frame that `AnalyseData` makes of a buffer. -/
theorem parseFrame_checksum (old : LinuxFrame) {data : List UInt8} {header n received : Nat}
    (hheader : readU32 data 0 = some header)
    (hlength : readU16 data 4 = some n) (hreceived : readU32 data (6 + n) = some received) (hn : n ≤ 128)
    (hcomplete : n + 6 ≤ data.length) :
    ∃ frame, parseFrame old data = some frame ∧ frame.checksum = sumBytes ((data.drop 4).take n) := by
  have hsummed : readBytes data 4 n = _ := readBytes_of_le (by omega)
  have hbytes : readBytes data 6 n = _ := readBytes_of_le (by omega)
  unfold parseFrame
  simp only [Option.bind_eq_bind, hheader, hlength, hsummed, hreceived, hbytes, Option.bind_some]
  rw [if_neg (by omega)]
  exact ⟨_, rfl, rfl⟩

/-! ### Coverage -/

/-- In a buffer that passes the tests, the change of a byte of the payload makes the computed checksum differ from the
stored one if and only if that byte is not one of the last two. -/
theorem corruption_seen_iff (old : LinuxFrame) {data : List UInt8} {n : Nat} (h : PassesTests data n)
    {i : Nat} (hi : i < n)
    {b : UInt8} (hb : data[6 + i]? ≠ some b) :
    ∃ frame, parseFrame old (data.set (6 + i) b) = some frame ∧
      (readU32 (data.set (6 + i) b) (6 + n) ≠ some frame.checksum ↔ i + 2 < n) := by
  have hcomplete := h.complete
  have hmax := h.maxLength
  have hstored := h.checksum
  rw [readBytes_of_le (by omega), Option.map_some] at hstored
  have hstored' : readU32 (data.set (6 + i) b) (6 + n) = some (sumBytes ((data.drop 4).take n)) := by
    rw [readU32_set (by omega), hstored]
  obtain ⟨frame, hframe, hchecksum⟩ := @parseFrame_checksum old (data.set (6 + i) b) _ n _
    (by rw [readU32_set (by omega), h.header]) (by rw [readU16_set (by omega), h.dataLength_eq]) hstored' (by omega)
    (by rw [List.length_set]; omega)
  refine ⟨frame, hframe, ?_⟩
  rw [hstored', hchecksum, summed_set, Ne, Option.some_inj]
  -- the sum ends two bytes before the payload does
  by_cases hcovered : i + 2 < n
  · have hin : i + 2 < ((data.drop 4).take n).length := by
      rw [List.length_take, List.length_drop]
      omega
    have hsum := sumBytes_set (b := b) hin
    have hbyte : ((data.drop 4).take n)[i + 2] = data[6 + i] := by
      rw [List.getElem_take, List.getElem_drop]
      congr 1
      omega
    rw [hbyte] at hsum
    have hne : data[6 + i].toNat ≠ b.toNat := by
      intro heq
      apply hb
      rw [List.getElem?_eq_getElem (by omega), UInt8.toNat_inj.1 heq]
    exact ⟨fun _ => hcovered, fun _ => by omega⟩
  · have hout : ((data.drop 4).take n).length ≤ i + 2 := by
      rw [List.length_take]
      omega
    rw [List.set_eq_of_length_le hout]
    exact ⟨fun hno => absurd rfl hno, fun hc => absurd hc hcovered⟩

theorem abort_passesTests : PassesTests abortPacket.encode 8 :=
  ⟨by decide, by decide, by decide, by decide, by decide, by decide⟩

/-- The axis number of a frame that aborts a jog is covered. -/
theorem corruption_seen_axis : ∃ frame,
    parseFrame startLink.rx.currentFrame (abortPacket.encode.set (6 + 2) 7) = some frame ∧
    (readU32 (abortPacket.encode.set (6 + 2) 7) (6 + 8) ≠ some frame.checksum ↔ 2 + 2 < 8) :=
  corruption_seen_iff startLink.rx.currentFrame abort_passesTests (by decide) (by decide)

/-- Its last byte is not. -/
theorem corruption_unseen : ¬ ∀ (data : List UInt8) (n : Nat), PassesTests data n → ∀ i < n, ∀ b : UInt8,
    data[6 + i]? ≠ some b → ∃ frame, parseFrame startLink.rx.currentFrame (data.set (6 + i) b) = some frame ∧
      readU32 (data.set (6 + i) b) (6 + n) ≠ some frame.checksum := by
  intro hseen
  obtain ⟨frame, hframe, hne⟩ := hseen abortPacket.encode 8 abort_passesTests 7 (by decide) 1 (by decide)
  have hchecksum : frame.checksum = 21 := by
    have hparse := congrArg (Option.map LinuxFrame.checksum) hframe
    exact (Option.some.inj hparse).symm
  rw [hchecksum] at hne
  exact hne (by decide)

end SoemMotion
