import SoemMotion.Tp

/-!
# What the planner keeps

A cycle of the planner changes how far its segments have come, but not which segments they are: a segment keeps its
id, its geometry, its length and its limits (`Tc.Same`), the queue its shape and the segments of its cells
(`Tcq.SameCells`).  What one cycle does to the planner as a whole is one of four cases (`CycleResult`), and so every
invariant of the planner is a case analysis.
-/

namespace SoemMotion

variable {K : Type}

/-! ### The planner within a cycle -/

/-- The planner after a part of a cycle that leaves the queue and the settings alone. -/
def Tp.moved (tp : Tp K) (currentPos : EmcPose K) (offset : K) (motionType activeDepth execId : Int)
    (status : TpStatus K) : Tp K :=
  { tp with
    currentPos := currentPos, spindle := { tp.spindle with offset := offset }
    motionType := motionType, activeDepth := activeDepth, execId := execId, status := status }

def Tp.Moves (tp tp' : Tp K) : Prop :=
  ∃ currentPos offset motionType activeDepth execId status,
    tp' = tp.moved currentPos offset motionType activeDepth execId status

theorem Tp.Moves.refl (tp : Tp K) : tp.Moves tp := ⟨_, _, _, _, _, _, rfl⟩

theorem Tp.Moves.trans {a b c : Tp K} (h : a.Moves b) (h' : b.Moves c) : a.Moves c := by
  obtain ⟨_, _, _, _, _, _, rfl⟩ := h
  obtain ⟨_, _, _, _, _, _, rfl⟩ := h'
  exact ⟨_, _, _, _, _, _, rfl⟩

theorem Tp.Moves.queue {a b : Tp K} (h : a.Moves b) : b.queue = a.queue := by
  obtain ⟨_, _, _, _, _, _, rfl⟩ := h
  rfl

theorem Tp.Moves.reverseRun {a b : Tp K} (h : a.Moves b) : b.reverseRun = a.reverseRun := by
  obtain ⟨_, _, _, _, _, _, rfl⟩ := h
  rfl

variable [Arith K]

/-! ### Segments -/

/-- The second value comes from the first by `fmin`. -/
inductive Lowered : K → K → Prop
  | refl (v : K) : Lowered v v
  | fmin {v w : K} (h : Lowered v w) (u : K) : Lowered v (fmin w u)

theorem Lowered.trans {a b c : K} (h : Lowered a b) (h' : Lowered b c) : Lowered a c := by
  induction h' with
  | refl => exact h
  | fmin _ u ih => exact .fmin ih u

/-- The same segment, at another time: the velocity limit of a line may have been lowered. -/
structure Tc.Same (a b : Tc K) : Prop where
  id : b.id = a.id
  coords : b.coords = a.coords
  target : b.target = a.target
  reqvel : b.reqvel = a.reqvel
  maxaccel : b.maxaccel = a.maxaccel
  maxvel : (∃ line, a.coords = .line line) → Lowered a.maxvel b.maxvel

@[refl] theorem Tc.Same.refl (a : Tc K) : a.Same a := ⟨rfl, rfl, rfl, rfl, rfl, fun _ => .refl _⟩

theorem Tc.Same.trans {a b c : Tc K} (h : a.Same b) (h' : b.Same c) : a.Same c where
  id := h'.id.trans h.id
  coords := h'.coords.trans h.coords
  target := h'.target.trans h.target
  reqvel := h'.reqvel.trans h.reqvel
  maxaccel := h'.maxaccel.trans h.maxaccel
  maxvel hline := (h.maxvel hline).trans (h'.maxvel (by rw [h.coords]; exact hline))

/-- The same next segment, or none. -/
abbrev SameNext (a b : Option (Tc K)) : Prop := Option.Rel Tc.Same a b

theorem SameNext.refl (a : Option (Tc K)) : SameNext a a := by
  cases a with
  | none => exact .none
  | some a => exact .some (Tc.Same.refl a)

theorem SameNext.trans {a b c : Option (Tc K)} (h : SameNext a b) (h' : SameNext b c) : SameNext a c := by
  cases h with
  | none => exact h'
  | some h =>
    cases h' with
    | some h' => exact .some (h.trans h')

/-- A segment as it was queued and optimized, without what its execution changes. -/
def Tc.plan (tc : Tc K) : Tc K :=
  { tc with
    cycleTime := 0, progress := 0, targetVel := 0, currentvel := 0, termVel := 0, active := false, blendingNext := false
    blendVel := 0, velAtBlendStart := 0, syncAccel := 0, onFinalDecel := false, accelRamp := false, splitting := false
    remove := false, isBlending := false }

/-- The same segment after some cycles. -/
def Tc.Cycled (a b : Tc K) : Prop := b.plan = a.plan

theorem Tc.Cycled.refl (a : Tc K) : a.Cycled a := rfl

theorem Tc.Cycled.trans {a b c : Tc K} (h : a.Cycled b) (h' : b.Cycled c) : a.Cycled c := Eq.trans h' h

/-- Such a segment still has what its plan shows. -/
theorem Tc.Cycled.keeps {a b : Tc K} (h : a.Cycled b) {β : Type} (f : Tc K → β) (hf : ∀ tc : Tc K, f tc.plan = f tc) :
    f b = f a := by
  rw [← hf b, ← hf a]
  exact congrArg f h

theorem Tc.Cycled.same {a b : Tc K} (h : a.Cycled b) : a.Same b := by
  have hmaxvel := h.keeps Tc.maxvel fun _ => rfl
  exact ⟨h.keeps Tc.id fun _ => rfl, h.keeps Tc.coords fun _ => rfl, h.keeps Tc.target fun _ => rfl,
    h.keeps Tc.reqvel fun _ => rfl, h.keeps Tc.maxaccel fun _ => rfl, fun _ => hmaxvel ▸ .refl _⟩

theorem cycledNext_refl (a : Option (Tc K)) : Option.Rel Tc.Cycled a a := by
  cases a with
  | none => exact .none
  | some a => exact .some rfl

theorem cycledNext_trans {a b c : Option (Tc K)} (h : Option.Rel Tc.Cycled a b) (h' : Option.Rel Tc.Cycled b c) :
    Option.Rel Tc.Cycled a c := by
  cases h with
  | none => exact h'
  | some h =>
    cases h' with
    | some h' => exact .some (h.trans h')

theorem cycledNext_map {f : Tc K → Tc K} (hf : ∀ tc : Tc K, tc.Cycled (f tc)) (a : Option (Tc K)) :
    Option.Rel Tc.Cycled a (a.map f) := by
  cases a with
  | none => exact .none
  | some a => exact .some (hf a)

/-! ### Queues -/

/-- The same queue with `R` between what each cell held and holds. -/
structure Tcq.Cells {α : Type} (R : α → α → Prop) (p q : Tcq α) : Prop where
  size : q.size = p.size
  len : q.len = p.len
  start : q.start = p.start
  «end» : q.end = p.end
  allFull : q.allFull = p.allFull
  cell : ∀ i, R (p.queue i) (q.queue i)

omit [Arith K] in
theorem Tcq.Cells.refl {α : Type} {R : α → α → Prop} (hrefl : ∀ a, R a a) (q : Tcq α) : q.Cells R q :=
  ⟨rfl, rfl, rfl, rfl, rfl, fun _ => hrefl _⟩

omit [Arith K] in
theorem Tcq.Cells.trans {α : Type} {R : α → α → Prop} {p q r : Tcq α} (h : p.Cells R q)
    (htrans : ∀ {a b c}, R a b → R b c → R a c) (h' : q.Cells R r) : p.Cells R r :=
  ⟨h'.size.trans h.size, h'.len.trans h.len, h'.start.trans h.start, h'.end.trans h.end, h'.allFull.trans h.allFull,
    fun i => htrans (h.cell i) (h'.cell i)⟩

omit [Arith K] in
theorem Tcq.Cells.wf {α : Type} {R : α → α → Prop} {p q : Tcq α} (h : p.Cells R q) (hw : p.WF) : q.WF where
  start_lt := by rw [h.start, h.size]; exact hw.start_lt
  len_nonneg := by rw [h.len]; exact hw.len_nonneg
  len_le := by rw [h.len, h.size]; exact hw.len_le
  end_eq := by rw [h.end, h.start, h.len, h.size]; exact hw.end_eq
  full_iff := by rw [h.allFull, h.len, h.size]; exact hw.full_iff

omit [Arith K] in
theorem Tcq.Cells.index {α : Type} {R : α → α → Prop} {p q : Tcq α} (h : p.Cells R q) (n : Int) :
    q.index n = p.index n := by
  unfold Tcq.index
  rw [h.start, h.size]

omit [Arith K] in
/-- Writing back an item that was read from the queue as it was. -/
theorem Tcq.Cells.setItem {α : Type} {R : α → α → Prop} {p q : Tcq α} (h : p.Cells R q) {n : Int} {a a' : α}
    (hitem : tcqItem p n = some a) (hs : R a a') : p.Cells R (q.setItem n a') := by
  refine ⟨h.size, h.len, h.start, h.end, h.allFull, ?_⟩
  intro i
  show R (p.queue i) (if i = q.index n then a' else q.queue i)
  split
  · rename_i hi
    rw [hi, h.index n, (lt_of_tcqItem hitem).2]
    exact hs
  · exact h.cell i

omit [Arith K] in
/-- An item of the later queue comes from the item at its place. -/
theorem Tcq.Cells.item {α : Type} {R : α → α → Prop} {p q : Tcq α} (h : p.Cells R q) {n : Int} {b : α}
    (hb : tcqItem q n = some b) : ∃ a, tcqItem p n = some a ∧ R a b := by
  obtain ⟨hn, rfl⟩ := lt_of_tcqItem hb
  refine ⟨p.queue (p.index n), tcqItem_of_lt hn.1 (by rw [← h.len]; exact hn.2), ?_⟩
  rw [h.index n]
  exact h.cell _

omit [Arith K] in
theorem Tcq.Cells.last {α : Type} {R : α → α → Prop} {p q : Tcq α} (h : p.Cells R q) {b : α} (hb : tcqLast q = some b) :
    ∃ a, tcqLast p = some a ∧ R a b := by
  have hlast : q.lastIndex = p.lastIndex := by
    unfold Tcq.lastIndex
    rw [h.end, h.size]
  unfold tcqLast at hb ⊢
  rw [h.len, hlast] at hb
  split at hb
  · cases hb
  · rename_i hne
    cases hb
    rw [if_neg hne]
    exact ⟨_, rfl, h.cell _⟩

omit [Arith K] in
theorem Tcq.Cells.mono {α : Type} {R S : α → α → Prop} {p q : Tcq α} (h : p.Cells R q) (hRS : ∀ {a b}, R a b → S a b) :
    p.Cells S q :=
  ⟨h.size, h.len, h.start, h.end, h.allFull, fun i => hRS (h.cell i)⟩

/-- The same queue of the same segments, at another time. -/
structure Tcq.SameCells (p q : Tcq (Tc K)) : Prop where
  size : q.size = p.size
  len : q.len = p.len
  start : q.start = p.start
  «end» : q.end = p.end
  allFull : q.allFull = p.allFull
  cell : ∀ i, (p.queue i).Same (q.queue i)

theorem sameCells_iff {p q : Tcq (Tc K)} : p.SameCells q ↔ p.Cells Tc.Same q :=
  ⟨fun h => ⟨h.size, h.len, h.start, h.end, h.allFull, h.cell⟩,
  fun h => ⟨h.size, h.len, h.start, h.end, h.allFull, h.cell⟩⟩

theorem Tcq.Cells.same {p q : Tcq (Tc K)} (h : p.Cells Tc.Cycled q) : p.SameCells q :=
  ⟨h.size, h.len, h.start, h.end, h.allFull, fun i => (h.cell i).same⟩

@[refl] theorem Tcq.SameCells.refl (q : Tcq (Tc K)) : q.SameCells q := sameCells_iff.2 (Tcq.Cells.refl Tc.Same.refl q)

theorem Tcq.SameCells.trans {p q r : Tcq (Tc K)} (h : p.SameCells q) (h' : q.SameCells r) : p.SameCells r :=
  sameCells_iff.2 ((sameCells_iff.1 h).trans Tc.Same.trans (sameCells_iff.1 h'))

theorem Tcq.SameCells.wf {p q : Tcq (Tc K)} (h : p.SameCells q) (hw : p.WF) : q.WF := (sameCells_iff.1 h).wf hw

theorem Tcq.SameCells.index {p q : Tcq (Tc K)} (h : p.SameCells q) (n : Int) : q.index n = p.index n :=
  (sameCells_iff.1 h).index n

theorem sameCells_setLast {q : Tcq (Tc K)} {tc tc' : Tc K} (h : tcqLast q = some tc) (hs : tc.Same tc') :
    q.SameCells (q.setLast tc') := by
  refine ⟨rfl, rfl, rfl, rfl, rfl, ?_⟩
  intro i
  show (q.queue i).Same (if i = q.lastIndex then tc' else q.queue i)
  unfold tcqLast at h
  split at h
  · cases h
  · split
    · rename_i hi
      rw [hi, Option.some.inj h]
      exact hs
    · exact Tc.Same.refl _

theorem Tcq.SameCells.item {p q : Tcq (Tc K)} (h : p.SameCells q) {n : Int} : SameNext (tcqItem p n) (tcqItem q n) := by
  unfold tcqItem
  rw [h.len, h.index n]
  split
  · exact .none
  · exact .some (h.cell _)

theorem Tcq.SameCells.last {p q : Tcq (Tc K)} (h : p.SameCells q) : SameNext (tcqLast p) (tcqLast q) := by
  unfold tcqLast Tcq.lastIndex
  rw [h.len, h.end, h.size]
  split
  · exact .none
  · exact .some (h.cell _)

/-- The planner with its segments advanced. -/
def Tp.Advances (tp tp' : Tp K) : Prop :=
  ∃ u q, tp.Moves u ∧ tp.queue.Cells Tc.Cycled q ∧ tp' = { u with queue := q }

theorem Tp.Moves.advances {tp tp' : Tp K} (h : tp.Moves tp') : tp.Advances tp' :=
  ⟨tp', tp.queue, h, Tcq.Cells.refl Tc.Cycled.refl _, by rw [← h.queue]⟩

theorem Tp.Advances.cells {tp tp' : Tp K} (h : tp.Advances tp') : tp.queue.Cells Tc.Cycled tp'.queue := by
  obtain ⟨u, q, -, hq, rfl⟩ := h
  exact hq

theorem Tp.Advances.sameCells {tp tp' : Tp K} (h : tp.Advances tp') : tp.queue.SameCells tp'.queue := h.cells.same

theorem Tp.Advances.goalPos {tp tp' : Tp K} (h : tp.Advances tp') : tp'.goalPos = tp.goalPos := by
  obtain ⟨u, q, ⟨_, _, _, _, _, _, rfl⟩, -, rfl⟩ := h
  rfl

theorem Tp.Advances.reverseRun {tp tp' : Tp K} (h : tp.Advances tp') : tp'.reverseRun = tp.reverseRun := by
  obtain ⟨u, q, ⟨_, _, _, _, _, _, rfl⟩, -, rfl⟩ := h
  rfl

theorem Tp.Advances.aborting {tp tp' : Tp K} (h : tp.Advances tp') : tp'.aborting = tp.aborting := by
  obtain ⟨u, q, ⟨_, _, _, _, _, _, rfl⟩, -, rfl⟩ := h
  rfl

theorem Tp.Advances.cycleTime {tp tp' : Tp K} (h : tp.Advances tp') : tp'.cycleTime = tp.cycleTime := by
  obtain ⟨u, q, ⟨_, _, _, _, _, _, rfl⟩, -, rfl⟩ := h
  rfl

theorem Tp.Advances.waitingForAtspeed {tp tp' : Tp K} (h : tp.Advances tp') :
    tp'.spindle.waitingForAtspeed = tp.spindle.waitingForAtspeed := by
  obtain ⟨u, q, ⟨_, _, _, _, _, _, rfl⟩, -, rfl⟩ := h
  rfl

/-! ### One segment -/

theorem tcUpdateDistFromAccel_cycled (tc : Tc K) (acc velDesired : K) (reverse : Bool) :
    tc.Cycled (tcUpdateDistFromAccel tc acc velDesired reverse) := by
  unfold tcUpdateDistFromAccel
  dsimp only
  split
  · split <;> exact rfl
  · exact rfl

theorem tcSetSplitCycle_cycled (tc : Tc K) (splitTime vf : K) : tc.Cycled (tcSetSplitCycle tc splitTime vf) := by
  unfold tcSetSplitCycle
  split <;> exact rfl

theorem tpCheckEndCondition_cycled (env : TpEnv K) (tp : Tp K) (tc : Tc K) (nexttc : Option (Tc K)) :
    tc.Cycled (tpCheckEndCondition env tp tc nexttc) := by
  have hcycle : ∀ progress : K, tc.Cycled { tc with cycleTime := tp.cycleTime, progress := progress } :=
    fun _ => rfl
  unfold tpCheckEndCondition
  dsimp only
  split
  · have hsplit : ∀ u : Tc K, tc.Cycled u →
        tc.Cycled (if tp.reverseRun = true then u else tcSetSplitCycle u 0 u.currentvel) := by
      intro u hu
      split
      · exact hu
      · exact hu.trans (tcSetSplitCycle_cycled _ _ _)
    split
    · exact (hsplit _ (hcycle _)).trans rfl
    · exact hsplit _ (hcycle _)
  · split
    · exact rfl
    · split
      · exact rfl
      · split
        · exact rfl
        · split
          · exact (hcycle _).trans (tcSetSplitCycle_cycled _ _ _)
          · split
            · exact Tc.Cycled.trans (b := { tc with cycleTime := tp.cycleTime }) rfl (tcSetSplitCycle_cycled _ _ _)
            · exact rfl

theorem tpAdvance_cycled (env : TpEnv K) (tp : Tp K) (tc : Tc K) (nexttc : Option (Tc K)) :
    tc.Cycled (tpAdvance env tp tc nexttc) := by
  have h : tc.Cycled (if tc.blendingNext = true then tc else { tc with velAtBlendStart := tc.currentvel }) := by
    split
    · exact rfl
    · exact rfl
  exact (h.trans (tcUpdateDistFromAccel_cycled _ _ _ _)).trans (tpCheckEndCondition_cycled _ _ _ _)

theorem tpAddCurrentPos_moves (tp : Tp K) (disp : EmcPose K) : tp.Moves (tpAddCurrentPos tp disp) := by
  unfold tpAddCurrentPos
  split
  · exact ⟨_, _, _, _, _, _, rfl⟩
  · exact Tp.Moves.refl _

theorem tpUpdateCycle_spec (env : TpEnv K) (tp : Tp K) (tc : Tc K) (nexttc : Option (Tc K)) :
    tp.Moves (tpUpdateCycle env tp tc nexttc).1 ∧ tc.Cycled (tpUpdateCycle env tp tc nexttc).2 :=
  ⟨tpAddCurrentPos_moves _ _, tpAdvance_cycled _ _ _ _⟩

theorem tpUpdateMovementStatus_moves (tp : Tp K) (tc : Tc K) : tp.Moves (tpUpdateMovementStatus tp tc) :=
  ⟨_, _, _, _, _, _, rfl⟩

/-! ### Blending and splitting -/

theorem tpUpdateBlend_spec (env : TpEnv K) (tp : Tp K) (tc nexttc : Tc K) :
    tp.Moves (tpUpdateBlend env tp tc nexttc).1 ∧ nexttc.Cycled (tpUpdateBlend env tp tc nexttc).2 := by
  have key : ∀ u : Tc K, nexttc.Cycled u → tp.Moves (tpUpdateCycle env tp u none).1 ∧
      nexttc.Cycled { (tpUpdateCycle env tp u none).2 with targetVel := nexttc.targetVel } := by
    intro u hu
    obtain ⟨h1, h2⟩ := tpUpdateCycle_spec env tp u none
    exact ⟨h1, (hu.trans h2).trans rfl⟩
  unfold tpUpdateBlend
  dsimp only
  split
  · exact key _ rfl
  · exact key _ rfl

theorem tpDoParabolicBlending_spec (env : TpEnv K) (tp : Tp K) (tc nexttc : Tc K) :
    tp.Moves (tpDoParabolicBlending env tp tc nexttc).1 ∧ nexttc.Cycled (tpDoParabolicBlending env tp tc nexttc).2 := by
  obtain ⟨h1, h2⟩ := tpUpdateBlend_spec env tp tc nexttc
  refine ⟨?_, h2⟩
  unfold tpDoParabolicBlending
  dsimp only
  split
  · exact (h1.trans (tpUpdateMovementStatus_moves _ tc)).trans ⟨_, _, _, _, _, _, rfl⟩
  · exact (h1.trans (tpUpdateMovementStatus_moves _ _)).trans ⟨_, _, _, _, _, _, rfl⟩

/-- What a cycle of the head segment does, whichever way it goes. -/
structure SegmentCycle (tp : Tp K) (tc : Tc K) (nexttc : Option (Tc K)) (r : Tp K × Tc K × Option (Tc K)) : Prop where
  tp : tp.Moves r.1
  tc : tc.Cycled r.2.1
  nexttc : Option.Rel Tc.Cycled nexttc r.2.2

theorem SegmentCycle.refl (tp : Tp K) (tc : Tc K) (nexttc : Option (Tc K)) :
    SegmentCycle tp tc nexttc (tp, tc, nexttc) :=
  ⟨Tp.Moves.refl _, rfl, cycledNext_refl _⟩

/-- The blend with the next segment, once the head segment has been advanced. -/
theorem tpBlend_spec (env : TpEnv K) {tp u : Tp K} {tc t next : Tc K} (hu : tp.Moves u) (ht : tc.Cycled t)
    (vThis vNext : K) :
    SegmentCycle tp tc (some next)
      (if (tcIsBlending { t with blendVel := vThis }).blendingNext = true then
        ((tpDoParabolicBlending env u (tcIsBlending { t with blendVel := vThis }) { next with blendVel := vNext }).1,
          tcIsBlending { t with blendVel := vThis },
          some (tpDoParabolicBlending env u (tcIsBlending { t with blendVel := vThis })
            { next with blendVel := vNext }).2)
      else (tpUpdateMovementStatus u (tcIsBlending { t with blendVel := vThis }),
        tcIsBlending { t with blendVel := vThis }, some { next with blendVel := vNext })) := by
  have ht' : tc.Cycled (tcIsBlending { t with blendVel := vThis }) := ht.trans rfl
  have hn : next.Cycled { next with blendVel := vNext } := rfl
  split
  · obtain ⟨h1, h2⟩ := tpDoParabolicBlending_spec env u (tcIsBlending { t with blendVel := vThis })
      { next with blendVel := vNext }
    exact ⟨hu.trans h1, ht', .some (hn.trans h2)⟩
  · exact ⟨hu.trans (tpUpdateMovementStatus_moves _ _), ht', .some hn⟩

theorem tpHandleRegularCycle_spec (env : TpEnv K) (tp : Tp K) (tc : Tc K) (nexttc : Option (Tc K)) :
    SegmentCycle tp tc nexttc (tpHandleRegularCycle env tp tc nexttc) := by
  unfold tpHandleRegularCycle
  split
  · exact SegmentCycle.refl _ _ _
  · obtain ⟨h1, h2⟩ := tpUpdateCycle_spec env tp { tc with cycleTime := tp.cycleTime } nexttc
    have h3 : tc.Cycled (tpUpdateCycle env tp { tc with cycleTime := tp.cycleTime } nexttc).2 :=
      h2
    cases nexttc with
    | none => exact ⟨h1.trans (tpUpdateMovementStatus_moves _ _), h3.trans rfl, .none⟩
    | some next => exact tpBlend_spec env h1 h3 _ _

/-- The rest of a split cycle, spent in the next segment. -/
theorem tpSplitNext_spec (env : TpEnv K) {tp u : Tp K} {tc t next n : Tc K} (hu : tp.Moves u) (ht : tc.Cycled t)
    (hn : next.Cycled n) (nexttc : Option (Tc K)) :
    SegmentCycle tp tc (some next)
      (if (tpUpdateCycle env u n nexttc).2.cycleTime < t.cycleTime ∧ t.termCond = .tangent then
        (tpUpdateMovementStatus (tpUpdateCycle env u n nexttc).1 t, t, some (tpUpdateCycle env u n nexttc).2)
      else (tpUpdateMovementStatus (tpUpdateCycle env u n nexttc).1 (tpUpdateCycle env u n nexttc).2, t,
        some (tpUpdateCycle env u n nexttc).2)) := by
  obtain ⟨h1, h2⟩ := tpUpdateCycle_spec env u n nexttc
  split
  · exact ⟨(hu.trans h1).trans (tpUpdateMovementStatus_moves _ _), ht, .some (hn.trans h2)⟩
  · exact ⟨(hu.trans h1).trans (tpUpdateMovementStatus_moves _ _), ht, .some (hn.trans h2)⟩

theorem tpHandleSplitCycle_spec (env : TpEnv K) (tp : Tp K) (tc : Tc K) (nexttc : Option (Tc K)) :
    SegmentCycle tp tc nexttc (tpHandleSplitCycle env tp tc nexttc) := by
  unfold tpHandleSplitCycle
  split
  · exact SegmentCycle.refl _ _ _
  · have h1 := tpAddCurrentPos_moves tp
      (emcPoseSub (tcGetPos { tc with progress := tcGetTarget tc tp.reverseRun }) (tcGetPos tc))
    cases nexttc with
    | none => exact ⟨h1, rfl, .none⟩
    | some next =>
      have hstart : ∀ cycleTime : K, next.Cycled (if tc.termCond = .tangent then
          { next with cycleTime := cycleTime, currentvel := tc.termVel } else next) := by
        intro cycleTime
        split <;> exact rfl
      have hend : tc.Cycled { tc with progress := tcGetTarget tc tp.reverseRun, remove := true } := rfl
      exact tpSplitNext_spec env h1 hend (hstart _) _

theorem tpSyncVelocityMode_cycled (tc : Tc K) (nexttc : Option (Tc K)) :
    Option.Rel Tc.Cycled nexttc (tpSyncVelocityMode tc nexttc) := by
  refine cycledNext_map ?_ nexttc
  intro next
  split <;> exact rfl

theorem tpSyncPositionMode_spec (tp : Tp K) (tc : Tc K) (nexttc : Option (Tc K)) :
    SegmentCycle tp tc nexttc (tpSyncPositionMode tp tc nexttc) := by
  have hclamp : ∀ u : Tc K, tc.Cycled u → tc.Cycled (if u.targetVel < 0 then { u with targetVel := 0 } else u) := by
    intro u hu
    split
    · exact hu.trans rfl
    · exact hu
  unfold tpSyncPositionMode
  dsimp only
  split
  · split
    · exact ⟨⟨_, _, _, _, _, _, rfl⟩, hclamp _ rfl, tpSyncVelocityMode_cycled _ _⟩
    · exact ⟨Tp.Moves.refl _, hclamp _ rfl, tpSyncVelocityMode_cycled _ _⟩
  · exact ⟨Tp.Moves.refl _, hclamp _ rfl, tpSyncVelocityMode_cycled _ _⟩

theorem tpSync_spec (tp : Tp K) (tc : Tc K) (nexttc : Option (Tc K)) :
    SegmentCycle tp tc nexttc (tpSync tp tc nexttc) := by
  unfold tpSync
  split
  · exact SegmentCycle.refl _ _ _
  · exact ⟨Tp.Moves.refl _, rfl, tpSyncVelocityMode_cycled _ _⟩
  · exact tpSyncPositionMode_spec _ _ _

/-! ### The cycle -/

/-- A segment that is made active; only a reverse run refuses to. -/
theorem tpActivateSegment_spec {env : TpEnv K} {tp : Tp K} {tc : Tc K} :
    (tpActivateSegment env tp tc = none → tp.reverseRun = true) ∧
      ∀ r, tpActivateSegment env tp tc = some r → tp.Moves r.1 ∧ tc.Cycled r.2 := by
  unfold tpActivateSegment
  split
  · refine ⟨fun h => (by cases h), ?_⟩
    intro r hr
    cases hr
    exact ⟨Tp.Moves.refl _, rfl⟩
  · split
    · rename_i h
      exact ⟨fun _ => (Bool.and_eq_true_iff.1 h).1, fun r hr => by cases hr⟩
    · refine ⟨fun h => (by cases h), ?_⟩
      intro r hr
      cases hr
      exact ⟨⟨_, _, _, _, _, _, rfl⟩, rfl⟩

/-- Storing the segments that were read. -/
theorem tpStoreSegments_advances {tp u : Tp K} {tc tc' : Tc K} {nexttc nexttc' : Option (Tc K)}
    (hhead : tcqItem tp.queue 0 = some tc)
    (hnext : tcqItem tp.queue (if tp.reverseRun then -1 else 1) = nexttc) (hu : tp.Moves u) (htc : tc.Cycled tc')
    (hn : Option.Rel Tc.Cycled nexttc nexttc') : tp.Advances (tpStoreSegments u tc' nexttc') := by
  have hset := (Tcq.Cells.refl Tc.Cycled.refl tp.queue).setItem hhead htc
  refine ⟨u, (tpStoreSegments u tc' nexttc').queue, hu, ?_, rfl⟩
  unfold tpStoreSegments
  dsimp only
  rw [hu.queue, hu.reverseRun]
  cases hn with
  | none => exact hset
  | some h => exact hset.setItem hnext h

omit [Arith K] in
/-- The head is stored in a cell of its own. -/
theorem tpStoreSegments_head {tp u : Tp K} {tc : Tc K} (hhead : tcqItem tp.queue 0 = some tc) (hu : tp.Moves u)
    (hforward : tp.reverseRun = false) (hsize : 1 < tp.queue.size) (tc' : Tc K) (nexttc : Option (Tc K)) :
    tcqItem (tpStoreSegments u tc' nexttc).queue 0 = some tc' := by
  obtain ⟨⟨-, hlen⟩, -⟩ := lt_of_tcqItem hhead
  have hne : tp.queue.index 0 ≠ tp.queue.index 1 := by
    intro h
    have := Tcq.index_inj (by omega) (by omega) h
    omega
  unfold tpStoreSegments
  dsimp only
  rw [hu.queue, hu.reverseRun, hforward]
  cases nexttc with
  | none => exact setItem_self le_rfl hlen tc'
  | some next =>
    have hne' : (tp.queue.setItem 0 tc').index 0 ≠ (tp.queue.setItem 0 tc').index 1 := hne
    exact (setItem_of_index_ne hne' next).trans (setItem_self le_rfl hlen tc')

/-- What the part of a cycle before the test of `remove` does. -/
inductive SegmentRun (env : TpEnv K) (tp : Tp K) : Tp K → Option (Tc K) → Prop
  | empty (h : tcqItem tp.queue 0 = none) : SegmentRun env tp (tpHandleEmptyQueue env (tpUpdateInitialStatus tp)) none
  | stopped : SegmentRun env tp (tpResetAborted (tpUpdateInitialStatus tp)) none
  | refused (h : tp.reverseRun = true) : SegmentRun env tp (tpUpdateInitialStatus tp) none
  | ran {tp' : Tp K} {tc tc' : Tc K} (hhead : tcqItem tp.queue 0 = some tc) (htc : tc.Cycled tc')
      (hadvances : tp.Advances tp')
      (hstored : tp.reverseRun = false → 1 < tp.queue.size → tcqItem tp'.queue 0 = some tc') :
    SegmentRun env tp tp' (some tc')

theorem SegmentCycle.trans {tp : Tp K} {tc : Tc K} {nexttc : Option (Tc K)} {r r' : Tp K × Tc K × Option (Tc K)}
    (h : SegmentCycle tp tc nexttc r) (h' : SegmentCycle r.1 r.2.1 r.2.2 r') : SegmentCycle tp tc nexttc r' :=
  ⟨h.tp.trans h'.tp, h.tc.trans h'.tc, cycledNext_trans h.nexttc h'.nexttc⟩

/-- The synchronization and the cycle of an active segment. -/
theorem tpCycleSegment_spec (env : TpEnv K) (tp : Tp K) (tc : Tc K) (nexttc : Option (Tc K)) :
    SegmentCycle tp tc nexttc
      (if (tcClearFlags (tpSync tp tc nexttc).2.1).splitting = true then
        tpHandleSplitCycle env (tpSync tp tc nexttc).1 (tcClearFlags (tpSync tp tc nexttc).2.1)
          ((tpSync tp tc nexttc).2.2.map tcClearFlags)
      else
        tpHandleRegularCycle env (tpSync tp tc nexttc).1 (tcClearFlags (tpSync tp tc nexttc).2.1)
          ((tpSync tp tc nexttc).2.2.map tcClearFlags)) := by
  have hsync := tpSync_spec tp tc nexttc
  have hclear : ∀ t : Tc K, t.Cycled (tcClearFlags t) := fun _ => rfl
  have hstart : SegmentCycle tp tc nexttc ((tpSync tp tc nexttc).1, tcClearFlags (tpSync tp tc nexttc).2.1,
      (tpSync tp tc nexttc).2.2.map tcClearFlags) :=
    ⟨hsync.tp, hsync.tc.trans (hclear _), cycledNext_trans hsync.nexttc (cycledNext_map hclear _)⟩
  split
  · exact hstart.trans (tpHandleSplitCycle_spec env _ _ _)
  · exact hstart.trans (tpHandleRegularCycle_spec env _ _ _)

theorem tpRunSegment_run (env : TpEnv K) (tp : Tp K) :
    SegmentRun env tp (tpRunSegment env tp).1 (tpRunSegment env tp).2 := by
  have h0 : tp.Moves (tpUpdateInitialStatus tp) := ⟨_, _, _, _, _, _, rfl⟩
  unfold tpRunSegment
  dsimp only
  cases hhead : tcqItem tp.queue 0 with
  | none => exact .empty hhead
  | some tc =>
    by_cases hstop : tpAbortStopped (tpUpdateInitialStatus tp) tc (tcqItem tp.queue (if tp.reverseRun then -1 else 1))
    · simp only [hstop, if_true]
      exact .stopped
    · simp only [hstop, if_false, Bool.false_eq_true]
      cases hact : tpActivateSegment env (tpUpdateInitialStatus tp) tc with
      | none => exact .refused (tpActivateSegment_spec.1 hact : (tpUpdateInitialStatus tp).reverseRun = true)
      | some r =>
        obtain ⟨h1, h2⟩ := tpActivateSegment_spec.2 r hact
        have h3 := tpCycleSegment_spec env r.1 r.2 (tcqItem tp.queue (if tp.reverseRun then -1 else 1))
        have hu := (h0.trans h1).trans h3.tp
        have htc := h2.trans h3.tc
        refine .ran hhead htc (tpStoreSegments_advances hhead rfl hu htc h3.nexttc) ?_
        intro hforward hsize
        exact tpStoreSegments_head hhead hu hforward hsize _ _

/-- What a cycle does to the planner. -/
inductive CycleResult (env : TpEnv K) (tp : Tp K) : Tp K → Prop
  | emptied {tp' : Tp K} (hqueue : tp'.queue = tcqInit tp.queue)
      (hreverse : tp'.reverseRun = true → tp.reverseRun = true)
      (hspindle : tp'.spindle.waitingForAtspeed = tp.spindle.waitingForAtspeed) : CycleResult env tp tp'
  | advanced {tp' : Tp K} (h : tp.Advances tp') : CycleResult env tp tp'
  | popped {u tp' : Tp K} {q : Tcq (Tc K)} (h : tp.Advances u) (hq : tp.queue.Cells Tc.Cycled q)
      (hqueue : (if tp.reverseRun then tcqBackStep q else tcqPop q) = some tp'.queue) (hgoal : tp'.goalPos = u.goalPos)
      (hreverse : tp'.reverseRun = u.reverseRun)
      (hspindle : tp'.spindle.waitingForAtspeed = u.spindle.waitingForAtspeed) : CycleResult env tp tp'

/-- What the removal of a finished segment does. -/
theorem tpCompleteSegment_result {env : TpEnv K} {tp u : Tp K} {t tc : Tc K} (h : tp.Advances u)
    (ht : tcqItem tp.queue 0 = some t) (hsame : t.Cycled tc) : CycleResult env tp (tpCompleteSegment env u tc) := by
  unfold tpCompleteSegment
  split
  · exact .advanced h
  · obtain ⟨v, q, hv, hq, rfl⟩ := h
    have hoffset : ∀ offset : K, tp.Moves { v with spindle := { v.spindle with offset := offset } } :=
      fun _ => hv.trans ⟨_, _, _, _, _, _, rfl⟩
    dsimp only
    split
    · exact .advanced ⟨_, q, hoffset _, hq, rfl⟩
    · have hset := hq.setItem ht (hsame.trans (c := { tc with
        active := false, remove := false, isBlending := false, splitting := false, cycleTime := v.cycleTime
        currentvel := 0, termVel := 0 }) rfl)
      cases hpop : (if v.reverseRun = true then tcqBackStep (q.setItem 0 { tc with
          active := false, remove := false, isBlending := false, splitting := false, cycleTime := v.cycleTime
          currentvel := 0, termVel := 0 }) else tcqPop (q.setItem 0 { tc with
          active := false, remove := false, isBlending := false, splitting := false, cycleTime := v.cycleTime
          currentvel := 0, termVel := 0 })) with
      | none => exact .advanced ⟨_, _, hoffset _, hset, rfl⟩
      | some q' =>
        rw [hv.reverseRun] at hpop
        exact .popped ⟨v, q, hv, hq, rfl⟩ hset hpop rfl rfl rfl

theorem tpRunSegment_advances {env : TpEnv K} {tp u : Tp K} {tc : Tc K} (h : tpRunSegment env tp = (u, some tc)) :
    tp.Advances u ∧ (∃ t, tcqItem tp.queue 0 = some t ∧ t.Cycled tc) ∧
      (tp.reverseRun = false → 1 < tp.queue.size → tcqItem u.queue 0 = some tc) := by
  have hrun := tpRunSegment_run env tp
  rw [h] at hrun
  cases hrun with
  | ran hhead htc hadvances hstored => exact ⟨hadvances, ⟨_, hhead, htc⟩, hstored⟩

/-- One cycle of the planner. -/
theorem tpRunCycle_result (env : TpEnv K) (tp : Tp K) : CycleResult env tp (tpRunCycle env tp) := by
  unfold tpRunCycle
  split
  · rename_i u h
    have hrun := tpRunSegment_run env tp
    rw [h] at hrun
    generalize hr : (none : Option (Tc K)) = r at hrun
    cases hrun with
    | empty => exact .emptied rfl id rfl
    | stopped => exact .emptied rfl (fun h => by cases h) rfl
    | refused => exact .advanced (Tp.Moves.advances ⟨_, _, _, _, _, _, rfl⟩)
    | ran => cases hr
  · rename_i u tc h
    obtain ⟨hadvances, ⟨t, ht, hsame⟩, -⟩ := tpRunSegment_advances h
    split
    · exact tpCompleteSegment_result hadvances ht hsame
    · exact .advanced hadvances

theorem tpCompleteSegment_cycleTime (env : TpEnv K) (tp : Tp K) (tc : Tc K) :
    (tpCompleteSegment env tp tc).cycleTime = tp.cycleTime := by
  unfold tpCompleteSegment
  split
  · rfl
  · dsimp only
    split <;> rfl

/-- No cycle changes the cycle time. -/
theorem tpRunCycle_cycleTime (env : TpEnv K) (tp : Tp K) : (tpRunCycle env tp).cycleTime = tp.cycleTime := by
  have hrun := tpRunSegment_run env tp
  unfold tpRunCycle
  split
  · rename_i u h
    rw [h] at hrun
    generalize hr : (none : Option (Tc K)) = r at hrun
    cases hrun with
    | empty => rfl
    | stopped => rfl
    | refused => rfl
    | ran => cases hr
  · rename_i u tc h
    have hu := (tpRunSegment_advances h).1.cycleTime
    split
    · exact (tpCompleteSegment_cycleTime env u tc).trans hu
    · exact hu

/-! ### Appending a segment -/

omit [Arith K] in
theorem handleModeChange_eq (prevTc tc : Tc K) : ∃ cond blendPrev,
    handleModeChange prevTc tc = ({ prevTc with termCond := cond }, { tc with blendPrev := blendPrev }) := by
  unfold handleModeChange tcSetTermCond
  dsimp only
  split
  · split <;> exact ⟨_, _, rfl⟩
  · split
    · exact ⟨_, _, rfl⟩
    · exact ⟨prevTc.termCond, tc.blendPrev, rfl⟩

omit [Arith K] in
theorem tcFlagEarlyStop_eq (tc nexttc : Tc K) : ∃ cond blendPrev,
    tcFlagEarlyStop tc nexttc = ({ tc with termCond := cond }, { nexttc with blendPrev := blendPrev }) := by
  unfold tcFlagEarlyStop tcSetTermCond
  dsimp only
  split
  · split <;> exact ⟨_, _, rfl⟩
  · split
    · exact ⟨_, _, rfl⟩
    · exact ⟨tc.termCond, nexttc.blendPrev, rfl⟩

theorem tcUpdateCircleAccRatio_eq (tc : Tc K) : ∃ maxvel accRatioTan,
    tcUpdateCircleAccRatio tc = { tc with maxvel := maxvel, accRatioTan := accRatioTan } ∧
      ((∃ line, tc.coords = .line line) → maxvel = tc.maxvel) := by
  unfold tcUpdateCircleAccRatio
  split
  · exact ⟨tc.maxvel, tc.accRatioTan, rfl, fun _ => rfl⟩
  · rename_i hcircle
    refine ⟨_, _, rfl, ?_⟩
    rintro ⟨line, hline⟩
    rw [hcircle] at hline
    cases hline

theorem tcFinalizeLength_eq (tc : Tc K) : ∃ maxvel accRatioTan,
    tcFinalizeLength tc = { tc with maxvel := maxvel, accRatioTan := accRatioTan, finalized := true } ∧
      ((∃ line, tc.coords = .line line) → Lowered tc.maxvel maxvel) := by
  unfold tcFinalizeLength
  split
  · rename_i h
    exact ⟨tc.maxvel, tc.accRatioTan, by rw [← h], fun _ => .refl _⟩
  · obtain ⟨maxvel, accRatioTan, heq, hline⟩ := tcUpdateCircleAccRatio_eq (tcClampVelocityByLength tc)
    rw [heq]
    exact ⟨maxvel, accRatioTan, rfl, fun h => hline h ▸ .fmin (.refl _) _⟩

/-- The last segment after the join with `tc`. -/
def joinedLast (prevTc tc : Tc K) : Tc K :=
  (tcFlagEarlyStop (tcFinalizeLength (handleModeChange prevTc tc).1) (handleModeChange prevTc tc).2).1

/-- The join changes the velocity limit and the end of the last segment only. -/
theorem joinedLast_eq (prevTc tc : Tc K) : ∃ maxvel accRatioTan cond, joinedLast prevTc tc =
    { prevTc with maxvel := maxvel, accRatioTan := accRatioTan, finalized := true, termCond := cond } ∧
      ((∃ line, prevTc.coords = .line line) → Lowered prevTc.maxvel maxvel) := by
  obtain ⟨cond₁, blendPrev, hmode⟩ := handleModeChange_eq prevTc tc
  unfold joinedLast
  rw [hmode]
  obtain ⟨maxvel, accRatioTan, hfinal, hlowered⟩ := tcFinalizeLength_eq { prevTc with termCond := cond₁ }
  rw [hfinal]
  obtain ⟨cond, _, hstop⟩ := tcFlagEarlyStop_eq { prevTc with
    termCond := cond₁, maxvel := maxvel, accRatioTan := accRatioTan, finalized := true }
    { tc with blendPrev := blendPrev }
  rw [hstop]
  exact ⟨maxvel, accRatioTan, cond, rfl, hlowered⟩

theorem tpJoinLast_some {tp : Tp K} {prevTc : Tc K} (h : tcqLast tp.queue = some prevTc) (tc : Tc K) :
    (tpJoinLast tp tc).1 = { tp with queue := tp.queue.setLast (joinedLast prevTc tc) } := by
  unfold tpJoinLast
  rw [h]
  rfl

theorem tpJoinLast_none {tp : Tp K} (h : tcqLast tp.queue = none) (tc : Tc K) : tpJoinLast tp tc = (tp, tc) := by
  unfold tpJoinLast
  rw [h]

theorem tpJoinLast_next (tp : Tp K) (tc : Tc K) : ∃ blendPrev, (tpJoinLast tp tc).2 =
    { tc with blendPrev := blendPrev } := by
  unfold tpJoinLast
  cases tcqLast tp.queue with
  | none => exact ⟨tc.blendPrev, rfl⟩
  | some prevTc =>
    obtain ⟨cond, blendPrev, hmode⟩ := handleModeChange_eq prevTc tc
    obtain ⟨_, blendPrev', hstop⟩ := tcFlagEarlyStop_eq (tcFinalizeLength { prevTc with termCond := cond })
      { tc with blendPrev := blendPrev }
    dsimp only
    rw [hmode]
    dsimp only
    rw [hstop]
    exact ⟨blendPrev', rfl⟩

/-- The join of a new segment with the last queued one. -/
theorem tpJoinLast_spec (tp : Tp K) (tc : Tc K) : ∃ q, (tpJoinLast tp tc).1 = { tp with queue := q } ∧
    tp.queue.SameCells q ∧ tc.Same (tpJoinLast tp tc).2 := by
  have hnext : tc.Same (tpJoinLast tp tc).2 := by
    obtain ⟨_, heq⟩ := tpJoinLast_next tp tc
    rw [heq]
    exact ⟨rfl, rfl, rfl, rfl, rfl, fun _ => .refl _⟩
  cases hlast : tcqLast tp.queue with
  | none =>
    rw [tpJoinLast_none hlast] at hnext ⊢
    exact ⟨tp.queue, rfl, Tcq.SameCells.refl _, hnext⟩
  | some prevTc =>
    obtain ⟨_, _, _, heq, hlowered⟩ := joinedLast_eq prevTc tc
    have hprev : prevTc.Same (joinedLast prevTc tc) := by
      rw [heq]
      exact ⟨rfl, rfl, rfl, rfl, rfl, hlowered⟩
    exact ⟨_, tpJoinLast_some hlast tc, sameCells_setLast hlast hprev, hnext⟩

theorem tpComputeOptimalVelocity_eq (tp : Tp K) (tc prevTc : Tc K) : ∃ prevFinalvel atMax,
    tpComputeOptimalVelocity tp tc prevTc =
      ({ tc with maxvel := fmin tc.maxvel (tc.target / (tp.cycleTime * tpMinSegmentCycles)) },
        { prevTc with finalvel := prevFinalvel, optimizationAtMax := atMax }) := by
  unfold tpComputeOptimalVelocity
  dsimp only
  generalize fmin tc.maxvel (if 0 ≤ prevTc.kinkVel ∧ prevTc.termCond = .tangent then
    fmin prevTc.maxvel prevTc.kinkVel else prevTc.maxvel) = vfLimit
  split
  · exact ⟨_, _, rfl⟩
  · exact ⟨_, _, rfl⟩

/-- The optimizer changes the velocities of a pair only, and gives its second segment no final velocity but zero. -/
theorem tpOptimizePair_eq (env : TpEnv K) (tp : Tp K) (tc prevTc : Tc K) : ∃ maxvel finalvel prevFinalvel atMax,
    tpOptimizePair env tp tc prevTc = ({ tc with maxvel := maxvel, finalvel := finalvel },
      { prevTc with finalvel := prevFinalvel, optimizationAtMax := atMax }) ∧
    Lowered tc.maxvel maxvel ∧ (finalvel = tc.finalvel ∨ finalvel = 0) := by
  obtain ⟨finalvel, hspeed, hfinal⟩ : ∃ finalvel, (if tc.atspeed = true then { tc with finalvel := 0 } else tc) =
      { tc with finalvel := finalvel } ∧ (finalvel = tc.finalvel ∨ finalvel = 0) := by
    split
    · exact ⟨0, rfl, .inr rfl⟩
    · exact ⟨tc.finalvel, rfl, .inl rfl⟩
  unfold tpOptimizePair
  dsimp only
  rw [hspeed]
  split
  · obtain ⟨prevFinalvel, atMax, heq⟩ := tpComputeOptimalVelocity_eq tp { tc with finalvel := finalvel } prevTc
    rw [heq]
    exact ⟨_, _, _, _, rfl, .fmin (.refl _) _, hfinal⟩
  · exact ⟨_, _, _, _, rfl, .refl _, .inr rfl⟩

theorem tpOptimizePair_same (env : TpEnv K) (tp : Tp K) (tc prevTc : Tc K) :
    tc.Same (tpOptimizePair env tp tc prevTc).1 ∧ prevTc.Same (tpOptimizePair env tp tc prevTc).2 := by
  obtain ⟨maxvel, finalvel, prevFinalvel, atMax, heq, hmaxvel, -⟩ := tpOptimizePair_eq env tp tc prevTc
  rw [heq]
  exact ⟨⟨rfl, rfl, rfl, rfl, rfl, fun _ => hmaxvel⟩, ⟨rfl, rfl, rfl, rfl, rfl, fun _ => .refl _⟩⟩

/-- The rule of the look-ahead loop: what holds at its counter is kept by a turn that passes over a pair, and by one
that writes back a tangent pair whose first segment is in its first half and neither splits nor blends. -/
theorem tpOptimizeFrom_invariant (env : TpEnv K) {I : Tp K → Int → Prop} (hskip : ∀ tp x, I tp x → I tp (x + 1))
    (hpair : ∀ (tp : Tp K) (x : Int) (tc prevTc : Tc K) (depth : Int), I tp x →
      tcqItem tp.queue (tcqLen tp.queue - x) = some tc → tcqItem tp.queue (tcqLen tp.queue - x - 1) = some prevTc →
      prevTc.termCond = .tangent → ¬ blendDistFraction / 2 ≤ prevTc.progress / prevTc.target →
      ¬ (prevTc.splitting || prevTc.blendingNext) = true →
      I { tp with
        queue := (tp.queue.setItem (tcqLen tp.queue - x) { (tpOptimizePair env tp tc prevTc).1 with
          activeDepth := depth }).setItem (tcqLen tp.queue - x - 1) (tpOptimizePair env tp tc prevTc).2 } (x + 1))
    (n : Nat) {tp : Tp K} {x : Int} (h : I tp x) (hitPeaks : Int) (hitNonTangent : Bool) :
    ∃ x', I (tpOptimizeFrom env tp n x hitPeaks hitNonTangent) x' := by
  induction n generalizing tp x hitPeaks hitNonTangent with
  | zero => exact ⟨x, h⟩
  | succ n ih =>
    unfold tpOptimizeFrom
    dsimp only
    cases htc : tcqItem tp.queue (tcqLen tp.queue - x) with
    | none => exact ⟨x, h⟩
    | some tc =>
      cases hprev : tcqItem tp.queue (tcqLen tp.queue - x - 1) with
      | none => exact ⟨x, h⟩
      | some prevTc =>
        dsimp only
        split
        · split
          · exact ⟨x, h⟩
          · exact ih (hskip tp x h) _ _
        · rename_i htangent
          split
          · exact ⟨x, h⟩
          · rename_i hearly
            split
            · exact ⟨x, h⟩
            · rename_i hwhole
              have hset := hpair tp x tc prevTc (x - 2 - hitPeaks) h htc hprev (not_not.1 htangent) hearly hwhole
              generalize (if (tpOptimizePair env tp tc prevTc).1.optimizationAtMax = true then hitPeaks + 1
                else hitPeaks) = hitPeaks'
              split
              · exact ⟨x + 1, hset⟩
              · exact ih hset _ _

/-- What holds between two queued segments before and after their optimization holds between all of them. -/
theorem tpOptimizeFrom_cells {R : Tc K → Tc K → Prop} (hrefl : ∀ a, R a a) (htrans : ∀ {a b c}, R a b → R b c → R a c)
    (env : TpEnv K)
    (hpair : ∀ (tp : Tp K) (tc prevTc : Tc K) (depth : Int),
      R tc { (tpOptimizePair env tp tc prevTc).1 with activeDepth := depth } ∧
      R prevTc (tpOptimizePair env tp tc prevTc).2)
    (n : Nat) (tp : Tp K) (x hitPeaks : Int) (hitNonTangent : Bool) :
    ∃ q, tpOptimizeFrom env tp n x hitPeaks hitNonTangent = { tp with queue := q } ∧ tp.queue.Cells R q := by
  obtain ⟨_, h⟩ := tpOptimizeFrom_invariant env (x := x)
    (I := fun u _ => ∃ q, u = { tp with queue := q } ∧ tp.queue.Cells R q) (fun _ _ h => h)
    (fun u y tc prevTc depth h htc hprev _ _ _ => by
      obtain ⟨q, rfl, hq⟩ := h
      obtain ⟨h1, h2⟩ := hpair { tp with queue := q } tc prevTc depth
      exact ⟨_, rfl, hq.trans htrans (((Tcq.Cells.refl hrefl q).setItem htc h1).setItem hprev h2)⟩)
    n ⟨tp.queue, rfl, Tcq.Cells.refl hrefl _⟩ hitPeaks hitNonTangent
  exact h

/-- The optimizer changes the velocities of the queued segments only. -/
theorem tpRunOptimization_spec (env : TpEnv K) (tp : Tp K) :
    ∃ q, tpRunOptimization env tp = { tp with queue := q } ∧ tp.queue.SameCells q := by
  obtain ⟨q, hq, hcells⟩ := tpOptimizeFrom_cells Tc.Same.refl Tc.Same.trans env (fun tp tc prevTc depth => by
    obtain ⟨h1, h2⟩ := tpOptimizePair_same env tp tc prevTc
    exact ⟨h1.trans ⟨rfl, rfl, rfl, rfl, rfl, fun _ => .refl _⟩, h2⟩) (env.arcBlendOptDepth + 1).toNat tp 1 0 false
  exact ⟨q, hq, hcells.size, hcells.len, hcells.start, hcells.end, hcells.allFull, hcells.cell⟩

/-! ### Appending -/

/-- The planner after the segment `tc` went to the end of its queue, which then is `q`. -/
def Tp.append (tp : Tp K) (tc : Tc K) (q : Tcq (Tc K)) : Tp K :=
  { tp with
    queue := q, nextId := Arith.i32 K (tp.nextId + 1), goalPos := tcGetEndpoint tc tp.goalPos, done := false
    depth := tcqLen q }

section Appending

variable {tp : Tp K} {tc : Tc K} {q q₁ : Tcq (Tc K)}

theorem tpAddSegmentToQueue_full (h : tcqPut tp.queue { tc with id := tp.nextId } = none) (incId : Bool) :
    tpAddSegmentToQueue tp tc incId = (tp, .fail) := by
  unfold tpAddSegmentToQueue
  dsimp only
  rw [h]

theorem tpAddSegmentToQueue_put (h : tcqPut tp.queue { tc with id := tp.nextId } = some q) :
    tpAddSegmentToQueue tp tc true = (tp.append { tc with id := tp.nextId } q, .ok) := by
  unfold tpAddSegmentToQueue
  dsimp only
  rw [h]
  rfl

theorem tpQueueSegment_refused (env : TpEnv K) (hjoin : (tpJoinLast tp tc).1 = { tp with queue := q })
    (hput : tcqPut q { (tpJoinLast tp tc).2 with id := tp.nextId } = none) :
    tpQueueSegment env tp tc = (tpRunOptimization env { tp with queue := q }, .fail) := by
  unfold tpQueueSegment
  dsimp only
  rw [hjoin, tpAddSegmentToQueue_full hput]

theorem tpQueueSegment_appended (env : TpEnv K) (hjoin : (tpJoinLast tp tc).1 = { tp with queue := q })
    (hput : tcqPut q { (tpJoinLast tp tc).2 with id := tp.nextId } = some q₁) : tpQueueSegment env tp tc =
      (tpRunOptimization env (tp.append { (tpJoinLast tp tc).2 with id := tp.nextId } q₁), .ok) := by
  unfold tpQueueSegment
  dsimp only
  rw [hjoin, tpAddSegmentToQueue_put hput]
  rfl

end Appending

/-- What a call that appends the segment `seg` does to the planner. -/
inductive AppendResult (tp : Tp K) (seg : Tc K) : Tp K → Prop
  | kept {q : Tcq (Tc K)} (hq : tp.queue.SameCells q) : AppendResult tp seg { tp with queue := q }
  | put {q q₁ q₂ : Tcq (Tc K)} {tc : Tc K} {nextId depth : Int} (hq : tp.queue.SameCells q)
      (hput : tcqPut q tc = some q₁) (hq₂ : q₁.SameCells q₂) (hid : tc.id = tp.nextId)
      (hseg : seg.Same { tc with id := seg.id }) :
    AppendResult tp seg { tp with
      queue := q₂, nextId := nextId, goalPos := tcGetEndpoint tc tp.goalPos, done := false, depth := depth }

theorem AppendResult.congr {tp tp' : Tp K} {seg seg' : Tc K} (h : AppendResult tp seg tp') (hseg : seg'.Same seg) :
    AppendResult tp seg' tp' := by
  cases h with
  | kept hq => exact .kept hq
  | @put q q₁ q₂ tc _ _ hq hput hq₂ hid h =>
    refine .put hq hput hq₂ hid ?_
    have htc := hseg.trans h
    exact ⟨rfl, htc.coords, htc.target, htc.reqvel, htc.maxaccel, htc.maxvel⟩

theorem tpQueueSegment_result (env : TpEnv K) (tp : Tp K) (seg : Tc K) :
    AppendResult tp seg (tpQueueSegment env tp seg).1 := by
  obtain ⟨q, hjoin, hq, hsame⟩ := tpJoinLast_spec tp seg
  cases hput : tcqPut q { (tpJoinLast tp seg).2 with id := tp.nextId } with
  | none =>
    obtain ⟨q₂, h, hq₂⟩ := tpRunOptimization_spec env { tp with queue := q }
    rw [tpQueueSegment_refused env hjoin hput]
    dsimp only
    rw [h]
    exact .kept (hq.trans hq₂)
  | some q₁ =>
    obtain ⟨q₂, h, hq₂⟩ := tpRunOptimization_spec env (tp.append { (tpJoinLast tp seg).2 with id := tp.nextId } q₁)
    rw [tpQueueSegment_appended env hjoin hput]
    dsimp only
    rw [h]
    exact .put hq hput hq₂ rfl ⟨rfl, hsame.coords, hsame.target, hsame.reqvel, hsame.maxaccel, hsame.maxvel⟩

/-- The segment a call of `tpAddLine` queues. -/
def newLine (tp : Tp K) (stop : EmcPose K) (canonMotionType : Int) (vel iniMaxvel acc : K) (enables : UInt8)
    (atspeed : Bool) (indexerJnum : Int) : Tc K :=
  let seg := tpLineSegment tp stop canonMotionType vel iniMaxvel acc enables atspeed
  { tcClampVelocityByLength { seg with nominalLength := seg.target } with indexerJnum := indexerJnum }

/-- The planner with the new segment, before the pass. -/
def tpEnqueue (tp : Tp K) (tc : Tc K) : Tp K :=
  (tpAddSegmentToQueue (tpJoinLast tp tc).1 (tpJoinLast tp tc).2 true).1

theorem tpQueueSegment_enqueue (env : TpEnv K) (tp : Tp K) (tc : Tc K) :
    (tpQueueSegment env tp tc).1 = tpRunOptimization env (tpEnqueue tp tc) := rfl

theorem tpAddLine_enqueue (env : TpEnv K) {tp : Tp K} {stop : EmcPose K} {canonMotionType : Int}
    {vel iniMaxvel acc : K} {enables : UInt8} {atspeed : Bool} {indexerJnum : Int} (habort : tp.aborting = false)
    (hlong : ¬ (newLine tp stop canonMotionType vel iniMaxvel acc enables atspeed indexerJnum).target < tpPosEpsilon) :
    (tpAddLine env tp stop canonMotionType vel iniMaxvel acc enables atspeed indexerJnum).1 =
      tpRunOptimization env (tpEnqueue tp
        (newLine tp stop canonMotionType vel iniMaxvel acc enables atspeed indexerJnum)) := by
  unfold tpAddLine
  rw [if_neg (by rw [habort]; exact Bool.false_ne_true)]
  exact congrArg Prod.fst (if_neg hlong)

theorem tpEnqueue_full {tp : Tp K} {tc : Tc K} {q : Tcq (Tc K)} (hjoin : (tpJoinLast tp tc).1 = { tp with queue := q })
    (hput : tcqPut q { (tpJoinLast tp tc).2 with id := tp.nextId } = none) :
    tpEnqueue tp tc = { tp with queue := q } := by
  unfold tpEnqueue
  rw [hjoin, tpAddSegmentToQueue_full hput]

theorem tpEnqueue_put {tp : Tp K} {tc : Tc K} {q q₁ : Tcq (Tc K)} (hjoin : (tpJoinLast tp tc).1 = { tp with queue := q })
    (hput : tcqPut q { (tpJoinLast tp tc).2 with id := tp.nextId } = some q₁) :
    tpEnqueue tp tc = tp.append { (tpJoinLast tp tc).2 with id := tp.nextId } q₁ := by
  unfold tpEnqueue
  rw [hjoin, tpAddSegmentToQueue_put hput]
  rfl

theorem tpEnqueue_eq (tp : Tp K) (tc : Tc K) : ∃ queue nextId goalPos done depth, tpEnqueue tp tc =
    { tp with queue := queue, nextId := nextId, goalPos := goalPos, done := done, depth := depth } := by
  obtain ⟨q, hjoin, -⟩ := tpJoinLast_spec tp tc
  cases hput : tcqPut q { (tpJoinLast tp tc).2 with id := tp.nextId } with
  | none => exact ⟨_, _, _, _, _, tpEnqueue_full hjoin hput⟩
  | some q₁ => exact ⟨_, _, _, _, _, tpEnqueue_put hjoin hput⟩

end SoemMotion
