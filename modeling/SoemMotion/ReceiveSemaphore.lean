import SoemMotion.Downlink

/-!
# The semaphore and the frames in the ring

`AnalyseData` writes a frame and then posts `sem_count_tcp_rx`; `ProcessTask` waits for it and then reads a frame.
Both are taken apart into these steps and interleaved in any way.  A frame that finds the ring full would be dropped and
posted all the same (`analyseData_full`), but the storage ends before the ring is full: the semaphore counts the frames
as long as no call leaves the received bytes, the payload or the storage, and the 33rd frame does.
-/

namespace SoemMotion

/-! ### Steps -/

/-- The receiver, and how many calls are halfway. -/
structure RxThreads where
  rx : Receiver
  /-- Calls of `AnalyseData` between `write_ringbuff` and `sem_post`. -/
  writing : Nat
  /-- Runs of `ProcessTask` between `sem_wait` and `read_ringbuff`. -/
  reading : Nat

inductive RxEvent
  | write (data : List UInt8)
  | post
  | wait
  | read

inductive RxAnswer
  | wrote (stored : Bool)
  | posted
  | passed
  | read (frame : Option LinuxFrame)
  /-- An access out of bounds; nothing is said of the state after it. -/
  | outOfBounds

/-- `AnalyseData` up to `write_ringbuff`. -/
def RxThreads.write (s : RxThreads) (data : List UInt8) : RxAnswer × RxThreads :=
  match parseFrame s.rx.currentFrame data with
  | none => (.outOfBounds, s)
  | some frame =>
    match writeRingbuff s.rx.ring frame with
    | none => (.outOfBounds, s)
    | some (stored, ring) =>
      (.wrote stored, { s with rx := { s.rx with ring := ring, currentFrame := frame }, writing := s.writing + 1 })

/-- `sem_post`. -/
def RxThreads.post (s : RxThreads) : Option (RxAnswer × RxThreads) :=
  if s.writing = 0 then none
  else some (.posted, { s with rx := { s.rx with sem := s.rx.sem + 1 }, writing := s.writing - 1 })

/-- `sem_wait`, which does not return while the semaphore is zero. -/
def RxThreads.wait (s : RxThreads) : Option (RxAnswer × RxThreads) :=
  if s.rx.sem = 0 then none
  else some (.passed, { s with rx := { s.rx with sem := s.rx.sem - 1 }, reading := s.reading + 1 })

/-- `read_ringbuff`. -/
def RxThreads.read (s : RxThreads) : Option (RxAnswer × RxThreads) :=
  if s.reading = 0 then none
  else match readRingbuff s.rx.ring with
    | none => some (.outOfBounds, s)
    | some (frame, ring) => some (.read frame, { s with rx := { s.rx with ring := ring }, reading := s.reading - 1 })

/-- A step of one of the threads; none where no thread can take it. -/
def RxEvent.call : RxEvent → RxThreads → Option (RxAnswer × RxThreads)
  | .write data, s => some (s.write data)
  | .post, s => s.post
  | .wait, s => s.wait
  | .read, s => s.read

def RxEvent.isWrite : RxEvent → Bool
  | .write _ => true
  | _ => false

/-- Before the first frame. -/
def startThreads : RxThreads := { rx := startLink.rx, writing := 0, reading := 0 }

/-- `AnalyseData` that stays in bounds is its two steps, one after the other. -/
theorem analyseData_steps {s : RxThreads} {data : List UInt8} {rx : Receiver} (h : analyseData s.rx data = some rx) :
    (Lib.runCalls RxEvent.call [.write data, .post] s).map Prod.snd = some { s with rx := rx } := by
  obtain ⟨frame, hparse, h⟩ := Option.bind_eq_some_iff.1 h
  obtain ⟨⟨stored, ring⟩, hwrite, h⟩ := Option.bind_eq_some_iff.1 h
  cases h
  simp [Lib.runCalls, RxEvent.call, RxThreads.write, RxThreads.post, hparse, hwrite]

/-- Where it does not, its first step does not. -/
theorem analyseData_outOfBounds {s : RxThreads} {data : List UInt8} (h : analyseData s.rx data = none) :
    s.write data = (.outOfBounds, s) := by
  unfold analyseData at h
  unfold RxThreads.write
  cases hparse : parseFrame s.rx.currentFrame data with
  | none => simp
  | some frame =>
    cases hwrite : writeRingbuff s.rx.ring frame with
    | none => simp [hwrite]
    | some found => simp [hparse, hwrite] at h

/-- A call that stays in bounds is halfway after it. -/
theorem RxThreads.write_writing {s : RxThreads} {data : List UInt8} (h : (s.write data).1 ≠ .outOfBounds) :
    (s.write data).2.writing = s.writing + 1 := by
  unfold RxThreads.write at h ⊢
  cases hparse : parseFrame s.rx.currentFrame data with
  | none => simp [hparse] at h
  | some frame =>
    cases hwrite : writeRingbuff s.rx.ring frame with
    | none => simp [hparse, hwrite] at h
    | some found => simp [hwrite]

/-- A frame that finds the ring full is dropped, and posted all the same. -/
theorem analyseData_full {rx : Receiver} {data : List UInt8} {frame : LinuxFrame}
    (hparse : parseFrame rx.currentFrame data = some frame) (hfull : bufferNum ≤ rx.ring.length) :
    analyseData rx data = some { rx with sem := rx.sem + 1, currentFrame := frame } := by
  unfold analyseData writeRingbuff
  simp [hparse, hfull]

/-- `ProcessTask` is its two steps and what it does with the frame. -/
theorem processTask_steps {K : Type} [Arith K] (d : Downlink K) (writing reading : Nat) :
    processTask d = (Lib.runCalls RxEvent.call [.wait, .read]
    { rx := d.rx, writing := writing, reading := reading }).bind
      fun (answers, s) => match answers with
        | [_, .read (some frame)] => (processFrame d.machine frame).map fun machine =>
            { rx := s.rx, machine := machine }
        | [_, .read none] => some { d with rx := s.rx }
        | _ => none := by
  unfold processTask
  by_cases hsem : d.rx.sem = 0
  · simp [Lib.runCalls, RxEvent.call, RxThreads.wait, hsem]
  · cases hread : readRingbuff d.rx.ring with
    | none => simp [Lib.runCalls, RxEvent.call, RxThreads.wait, RxThreads.read, hsem, hread]
    | some found =>
      obtain ⟨frame, ring⟩ := found
      cases frame with
      | none =>
        have hring : ring = d.rx.ring := by
          unfold readRingbuff at hread
          split_ifs at hread
          · cases hread
            rfl
          · cases hread
        subst hring
        simp [Lib.runCalls, RxEvent.call, RxThreads.wait, RxThreads.read, hsem, hread]
      | some frame => simp [Lib.runCalls, RxEvent.call, RxThreads.wait, RxThreads.read, hsem, hread]

/-! ### What each step does -/

/-- The posts made and to be made are the frames in the ring, all of them stored. -/
structure RxThreads.InStep (s : RxThreads) : Prop where
  stored : s.rx.ring.Stored
  posts : s.rx.sem + s.writing + s.reading = s.rx.ring.length

/-- The semaphore counts the frames while nobody is between waiting and reading, up to the posts still to be made; a
read has found a frame, and nothing is out of bounds. -/
structure Counts (s : RxThreads) (e : RxEvent) (r : RxAnswer) (t : RxThreads) : Prop where
  counts : t.reading = 0 → t.rx.sem + t.writing = t.rx.ring.length
  found : r ≠ .read none
  inBounds : r ≠ .outOfBounds

/-- A call of `AnalyseData` gets a frame that it can read and keep, and finds a slot of the storage for it. -/
def FindsSlot (s : RxThreads) (e : RxEvent) (_ : RxAnswer) (_ : RxThreads) : Prop :=
  ∀ data, e = .write data → readPacket data ≠ none ∧ s.rx.ring.tail < storageSlots

section Steps

variable {s t : RxThreads} {e : RxEvent} {r : RxAnswer}

/-- A step from a state in step leads to another one and uses a slot if it writes, or it is out of bounds. -/
theorem RxThreads.InStep.call (hs : s.InStep) (h : e.call s = some (r, t)) :
    (FindsSlot s e r t ∧ Counts s e r t ∧ t.InStep ∧ t.rx.ring.tail = s.rx.ring.tail + e.isWrite.toNat) ∨
      ¬ FindsSlot s e r t ∧ r = .outOfBounds := by
  have hposts := hs.posts
  cases e with
  | write data =>
    have hread := parseFrame_packet s.rx.currentFrame data
    have hcall : s.write data = (r, t) := Option.some.inj h
    unfold RxThreads.write at hcall
    cases hparse : parseFrame s.rx.currentFrame data with
    | none =>
      rw [hparse] at hread hcall
      cases hcall
      exact .inr ⟨fun hfinds => (hfinds data rfl).1 hread.symm, rfl⟩
    | some frame =>
      rw [hparse] at hread hcall
      dsimp only at hcall
      rcases hs.stored.write frame with ⟨hslot, hwrite, hstored, htail⟩ | ⟨hfull, hwrite⟩
      · rw [hwrite] at hcall
        cases hcall
        have hlength : (s.rx.ring.put frame).length = s.rx.ring.length + 1 := rfl
        refine .inl ⟨?_, ⟨fun hidle => ?_, by simp, by simp⟩, ⟨hstored, ?_⟩, htail⟩
        · rintro _ ⟨⟩
          exact ⟨by rw [← hread]; simp, hslot⟩
        · dsimp only at hidle ⊢
          omega
        · dsimp only
          omega
      · rw [hwrite] at hcall
        cases hcall
        exact .inr ⟨fun hfinds => absurd (hfinds data rfl).2 (by omega), rfl⟩
  | post =>
    unfold RxEvent.call RxThreads.post at h
    dsimp only at h
    split at h
    · cases h
    · cases h
      refine .inl ⟨fun _ h => (by cases h), ⟨fun hidle => ?_, by simp, by simp⟩, ⟨hs.stored, ?_⟩, rfl⟩
      · dsimp only at hidle ⊢
        omega
      · dsimp only
        omega
  | wait =>
    unfold RxEvent.call RxThreads.wait at h
    dsimp only at h
    split at h
    · cases h
    · cases h
      refine .inl ⟨fun _ h => (by cases h), ⟨fun hidle => (by cases hidle), by simp, by simp⟩, ⟨hs.stored, ?_⟩, rfl⟩
      dsimp only
      omega
  | read =>
    unfold RxEvent.call RxThreads.read at h
    dsimp only at h
    split at h
    · cases h
    · obtain ⟨hread, hstored, htail⟩ := hs.stored.read (by omega)
      have hlength : s.rx.ring.drop.length = s.rx.ring.length - 1 := rfl
      rw [hread] at h
      cases h
      refine .inl ⟨fun _ h => (by cases h), ⟨fun hidle => ?_, by simp, by simp⟩, ⟨hstored, ?_⟩, htail⟩
      · dsimp only at hidle ⊢
        omega
      · dsimp only
        omega

end Steps

/-! ### Runs -/

section Runs

variable {s t : RxThreads} {es : List RxEvent} {rs : List RxAnswer}

theorem counts_iff_findsSlot (es : List RxEvent) (hs : s.InStep) :
    Lib.AllCalls RxEvent.call Counts es s ↔ Lib.AllCalls RxEvent.call FindsSlot es s := by
  refine Lib.AllCalls.iff (fun s e r t hs hcall => ?_) (fun s e r t hs hcall hcounts => ?_) hs
  · rcases hs.call hcall with ⟨hfinds, hcounts, -, -⟩ | ⟨hno, hout⟩
    · exact iff_of_true hcounts hfinds
    · exact iff_of_false (fun hcounts => hcounts.inBounds hout) hno
  · rcases hs.call hcall with ⟨-, -, hnext, -⟩ | ⟨-, hout⟩
    · exact hnext
    · exact absurd hout hcounts.inBounds

/-- Every call finds a slot exactly if there are enough of them for all. -/
theorem findsSlot_iff (hs : s.InStep) (hrun : Lib.runCalls RxEvent.call es s = some (rs, t)) :
    Lib.AllCalls RxEvent.call FindsSlot es s ↔
      (∀ data, .write data ∈ es → readPacket data ≠ none) ∧
        s.rx.ring.tail + es.countP RxEvent.isWrite ≤ storageSlots := by
  induction es generalizing s rs with
  | nil => simpa [Lib.AllCalls] using hs.stored.tail_le
  | cons e es ih =>
    obtain ⟨r, u, rs', hcall, hrun', -⟩ := Lib.runCalls_cons hrun
    have hfirst : Lib.AllCalls RxEvent.call FindsSlot (e :: es) s ↔
        FindsSlot s e r u ∧ Lib.AllCalls RxEvent.call FindsSlot es u := by
      refine ⟨fun h => h r u hcall, fun h r' u' hcall' => ?_⟩
      cases hcall.symm.trans hcall'
      exact h
    rw [hfirst, List.countP_cons]
    rcases hs.call hcall with ⟨hfinds, -, hnext, htail⟩ | ⟨hno, -⟩
    · rw [ih hnext hrun', htail]
      cases e with
      | write data =>
        have hread := (hfinds data rfl).1
        simp [RxEvent.isWrite, hfinds, hread, Nat.add_assoc, Nat.add_comm 1]
      | post => simp [RxEvent.isWrite, hfinds]
      | wait => simp [RxEvent.isWrite, hfinds]
      | read => simp [RxEvent.isWrite, hfinds]
    · refine iff_of_false (fun h => hno h.1) fun ⟨hreads, hroom⟩ => hno fun data hdata => ⟨hreads data ?_, ?_⟩
      · rw [hdata]
        exact List.mem_cons_self
      · rw [hdata] at hroom
        simp [RxEvent.isWrite] at hroom
        omega

end Runs

theorem startThreads_inStep : startThreads.InStep := ⟨startLink_stored, rfl⟩

/-- The semaphore counts the frames in exactly the runs in which each call of `AnalyseData` gets a frame that it can
read and keep and finds a slot of the storage; these are the runs on such frames with at most as many of them as the
storage has slots. -/
theorem semaphore_counts_iff (es : List RxEvent) :
    (Lib.AllCalls RxEvent.call Counts es startThreads ↔ Lib.AllCalls RxEvent.call FindsSlot es startThreads) ∧
    ∀ rs t, Lib.runCalls RxEvent.call es startThreads = some (rs, t) →
      (Lib.AllCalls RxEvent.call Counts es startThreads ↔
        (∀ data, .write data ∈ es → readPacket data ≠ none) ∧ es.countP RxEvent.isWrite ≤ storageSlots) := by
  have hiff := counts_iff_findsSlot es startThreads_inStep
  refine ⟨hiff, fun rs t hrun => hiff.trans ?_⟩
  rw [findsSlot_iff startThreads_inStep hrun, show startThreads.rx.ring.tail = 0 from rfl, Nat.zero_add]

/-- So many calls of `AnalyseData`, each with the same frame. -/
def floods : Nat → List RxEvent
  | 0 => []
  | n + 1 => .write abortPacket.encode :: .post :: floods n

/-- If the semaphore counts the frames, the storage has slots for them. -/
theorem floods_le (n : Nat) {s : RxThreads} (hs : s.InStep)
    (hcounts : Lib.AllCalls RxEvent.call Counts (floods n) s) : s.rx.ring.tail + n ≤ storageSlots := by
  -- over the frames still to come
  induction n generalizing s with
  | zero => exact hs.stored.tail_le
  | succ n ih =>
    have hfirst : RxEvent.call (.write abortPacket.encode) s =
        some ((s.write abortPacket.encode).1, (s.write abortPacket.encode).2) := rfl
    obtain ⟨hwrote, hafter⟩ := hcounts _ _ hfirst
    rcases hs.call hfirst with ⟨-, -, hnext, htail⟩ | ⟨-, hout⟩
    · have hwriting : (s.write abortPacket.encode).2.writing ≠ 0 := by
        have hnext := RxThreads.write_writing hwrote.inBounds
        omega
      have hsecond : RxEvent.call .post (s.write abortPacket.encode).2 = some (.posted, _) := if_neg hwriting
      obtain ⟨-, hlater⟩ := hafter _ _ hsecond
      rcases hnext.call hsecond with ⟨-, -, hnext', htail'⟩ | ⟨-, hout⟩
      · have hrest := ih hnext' hlater
        rw [htail', htail] at hrest
        have hone : (RxEvent.write abortPacket.encode).isWrite.toNat = 1 := rfl
        have hzero : RxEvent.post.isWrite.toNat = 0 := rfl
        omega
      · cases hout
    · exact absurd hout hwrote.inBounds

/-- The 33rd frame of which none has been read leaves the storage. -/
theorem semaphore_not_counts : ¬ Lib.AllCalls RxEvent.call Counts (floods 33) startThreads := by
  intro hcounts
  have hle := floods_le 33 startThreads_inStep hcounts
  exact absurd hle (by decide)

end SoemMotion
