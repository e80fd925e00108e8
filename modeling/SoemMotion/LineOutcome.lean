import SoemMotion.QueuePath

/-!
# Line commands: queued or refused

What the handler of a line command leaves behind.  A line that is too short is neither queued nor refused, and a refused
line has already changed the next id, and the last segment of a full queue.
-/

namespace SoemMotion

variable {K : Type} [Arith K]

/-! ### The two outcomes -/

/-- One segment more, which ends at the goal, and the command acknowledged. -/
structure LineAppended (s t : Machine K) : Prop where
  status : t.status.commandStatus = .ok
  len : tcqLen t.internal.coordTp.queue = tcqLen s.internal.coordTp.queue + 1
  before : ∀ n tc, tcqItem s.internal.coordTp.queue n = some tc →
    ∃ tc', tcqItem t.internal.coordTp.queue n = some tc' ∧ tc.Same tc'
  last : ∃ tc, tcqLast t.internal.coordTp.queue = some tc ∧
    tc.coords = .line (pmLine9Init s.internal.coordTp.goalPos (lineEnd s)) ∧
    t.internal.coordTp.goalPos = tcGetEndpoint tc s.internal.coordTp.goalPos

/-- The command refused, and the queue, the goal and the next id as they were. -/
structure LineRefused (s t : Machine K) : Prop where
  status : t.status.commandStatus ≠ .ok
  len : tcqLen t.internal.coordTp.queue = tcqLen s.internal.coordTp.queue
  items : ∀ n, tcqItem t.internal.coordTp.queue n = tcqItem s.internal.coordTp.queue n
  goalPos : t.internal.coordTp.goalPos = s.internal.coordTp.goalPos
  nextId : t.internal.coordTp.nextId = s.internal.coordTp.nextId

/-- Exactly one of the two. -/
def LineAtomic (s t : Machine K) : Prop := Xor (LineAppended s t) (LineRefused s t)

/-! ### The join with the last segment -/

/-- A new segment `tc` makes the last one stop at its end. -/
def JoinStops (prevTc tc : Tc K) : Prop :=
  ((prevTc.canonMotionType == 1) != (tc.canonMotionType == 1)) = true ∨
    (prevTc.synchronized != .position && tc.synchronized == .position) = true ∨ tc.atspeed = true

/-- Joining `tc` to `prevTc` changes nothing of `prevTc`. -/
def JoinKeeps (prevTc tc : Tc K) : Prop :=
  prevTc.finalized = true ∧ (JoinStops prevTc tc → prevTc.termCond = .stop)

theorem joinedLast_finalized (prevTc tc : Tc K) : (joinedLast prevTc tc).finalized = true := by
  obtain ⟨_, _, _, heq, -⟩ := joinedLast_eq prevTc tc
  rw [heq]

omit [Arith K] in
theorem handleModeChange_fields (prevTc tc : Tc K) :
    (handleModeChange prevTc tc).1.synchronized = prevTc.synchronized ∧
      (handleModeChange prevTc tc).2.synchronized = tc.synchronized ∧
      (handleModeChange prevTc tc).2.atspeed = tc.atspeed := by
  obtain ⟨_, _, heq⟩ := handleModeChange_eq prevTc tc
  rw [heq]
  exact ⟨rfl, rfl, rfl⟩

omit [Arith K] in
theorem handleModeChange_stops {prevTc tc : Tc K}
    (h : ((prevTc.canonMotionType == 1) != (tc.canonMotionType == 1)) = true) :
    (handleModeChange prevTc tc).1.termCond = .stop := by
  unfold handleModeChange tcSetTermCond
  rw [if_pos h]
  dsimp only
  split <;> rfl

theorem joinedLast_stops {prevTc tc : Tc K} (h : JoinStops prevTc tc) : (joinedLast prevTc tc).termCond = .stop := by
  obtain ⟨hcond, hsync⟩ : (tcFinalizeLength (handleModeChange prevTc tc).1).termCond =
      (handleModeChange prevTc tc).1.termCond ∧ (tcFinalizeLength (handleModeChange prevTc tc).1).synchronized =
        (handleModeChange prevTc tc).1.synchronized := by
    obtain ⟨_, _, heq, -⟩ := tcFinalizeLength_eq (handleModeChange prevTc tc).1
    rw [heq]
    exact ⟨rfl, rfl⟩
  obtain ⟨hprev, hnext, hat⟩ := handleModeChange_fields prevTc tc
  unfold joinedLast tcFlagEarlyStop tcSetTermCond
  rw [hsync, hprev, hnext]
  rcases h with hmode | hposition | hspeed
  · have hstop := hcond.trans (handleModeChange_stops hmode)
    dsimp only
    split
    · split <;> rfl
    · split
      · rfl
      · exact hstop
  · rw [if_pos hposition]
    dsimp only
    split <;> rfl
  · dsimp only
    split
    · rw [if_pos (hat.trans hspeed)]
    · rw [if_pos (hat.trans hspeed)]

omit [Arith K] in
theorem tcSetTermCond_stop {prevTc : Tc K} (h : prevTc.termCond = .stop) (tc : Tc K) :
    (tcSetTermCond prevTc tc .stop).1 = prevTc := by
  show { prevTc with termCond := .stop } = prevTc
  rw [← h]

omit [Arith K] in
theorem handleModeChange_kept {prevTc tc : Tc K} (h : JoinStops prevTc tc → prevTc.termCond = .stop) :
    (handleModeChange prevTc tc).1 = prevTc := by
  unfold handleModeChange
  by_cases hmode : ((prevTc.canonMotionType == 1) != (tc.canonMotionType == 1)) = true
  · have hstop := h (.inl hmode)
    rw [if_pos hmode]
    dsimp only
    split
    · rw [tcSetTermCond_stop hstop, tcSetTermCond_stop hstop]
    · exact tcSetTermCond_stop hstop tc
  · rw [if_neg hmode]
    dsimp only
    split
    · rename_i hsync
      exact tcSetTermCond_stop (h (.inr (.inl hsync))) tc
    · rfl

/-- Such a join leaves the last segment as it is. -/
theorem JoinKeeps.joinedLast {prevTc tc : Tc K} (h : JoinKeeps prevTc tc) : joinedLast prevTc tc = prevTc := by
  obtain ⟨hfin, hstops⟩ := h
  obtain ⟨-, hnext, hat⟩ := handleModeChange_fields prevTc tc
  have hfinal : tcFinalizeLength prevTc = prevTc := if_pos hfin
  unfold SoemMotion.joinedLast tcFlagEarlyStop
  rw [handleModeChange_kept hstops, hfinal, hnext]
  by_cases hsync : (prevTc.synchronized != .position && tc.synchronized == .position) = true
  · have hstop := hstops (.inr (.inl hsync))
    rw [if_pos hsync]
    dsimp only
    split
    · rw [tcSetTermCond_stop hstop, tcSetTermCond_stop hstop]
    · exact tcSetTermCond_stop hstop _
  · rw [if_neg hsync]
    dsimp only
    rw [hat]
    split
    · rename_i hspeed
      exact tcSetTermCond_stop (hstops (.inr (.inr hspeed))) _
    · rfl

/-! ### The planner and the line -/

/-- The planner the line is appended to, after `tpSetId` and `tpSetVlimit`. -/
def Machine.linePlanner (s : Machine K) : Tp K :=
  tpSetVlimit (tpSetId s.internal.coordTp s.command.id) (s.config.limitVel : K)

/-- The id of the command is no id, or the one the planner would give the segment anyway. -/
def Machine.KeepsId (s : Machine K) : Prop :=
  s.command.id = motionInvalidId ∨ s.command.id = s.internal.coordTp.nextId

/-- Appending to the full queue would change nothing of it: the join keeps its last segment, and the look-ahead pass
over it has nothing to do. -/
structure Machine.AppendKeeps (s : Machine K) : Prop where
  join : ∀ prevTc, tcqLast s.internal.coordTp.queue = some prevTc → JoinKeeps prevTc (commandedSegment s)
  lookAhead : ∀ n, tcqItem (tpRunOptimization s.handlerEnv s.linePlanner).queue n = tcqItem s.internal.coordTp.queue n

omit [Arith K] in
theorem tpSetId_nextId (tp : Tp K) (id : Int) :
    (tpSetId tp id).nextId = tp.nextId ↔ id = motionInvalidId ∨ id = tp.nextId := by
  unfold tpSetId
  split
  · rename_i h
    exact iff_of_true rfl (.inl h)
  · rename_i h
    rw [or_iff_right h]

theorem linePlanner_fields (s : Machine K) :
    s.linePlanner.queue = s.internal.coordTp.queue ∧ s.linePlanner.goalPos = s.internal.coordTp.goalPos ∧
      s.linePlanner.aborting = s.internal.coordTp.aborting ∧
      (s.linePlanner.nextId = s.internal.coordTp.nextId ↔ s.KeepsId) := by
  have hid : (tpSetId s.internal.coordTp s.command.id).aborting = s.internal.coordTp.aborting := by
    unfold tpSetId
    split <;> rfl
  obtain ⟨hcore, -⟩ := tpSetId_spec s.internal.coordTp s.command.id
  exact ⟨hcore.queue, hcore.goalPos, hid, tpSetId_nextId _ _⟩

/-- The segment as it is queued. -/
def Machine.lineSegment (s : Machine K) : Tc K :=
  { tcClampVelocityByLength { commandedSegment s with nominalLength := (commandedSegment s).target } with
    indexerJnum := s.command.turn }

theorem lineSegment_same (s : Machine K) : (commandedSegment s).Same s.lineSegment :=
  ⟨rfl, rfl, rfl, rfl, rfl, fun _ => .fmin (.refl _) _⟩

theorem addCommandedLine_aborting {s : Machine K} (h : s.internal.coordTp.aborting = true) :
    addCommandedLine s = (s.linePlanner, .fail) := by
  have habort : s.linePlanner.aborting = true := (linePlanner_fields s).2.2.1.trans h
  exact if_pos habort

theorem addCommandedLine_short {s : Machine K} (h : s.internal.coordTp.aborting = false)
    (hshort : (commandedSegment s).target < tpPosEpsilon) : addCommandedLine s = (s.linePlanner, .zeroLength) := by
  have habort : ¬ s.linePlanner.aborting = true := by
    rw [(linePlanner_fields s).2.2.1, h]
    exact Bool.false_ne_true
  exact (if_neg habort).trans (if_pos hshort)

theorem addCommandedLine_long {s : Machine K} (h : s.internal.coordTp.aborting = false)
    (hlong : ¬ (commandedSegment s).target < tpPosEpsilon) :
    addCommandedLine s = tpQueueSegment s.handlerEnv s.linePlanner s.lineSegment := by
  have habort : ¬ s.linePlanner.aborting = true := by
    rw [(linePlanner_fields s).2.2.1, h]
    exact Bool.false_ne_true
  exact (if_neg habort).trans (if_neg hlong)

/-! ### A full queue -/

theorem tpQueueSegment_full {env : TpEnv K} {tp : Tp K} {tc : Tc K} (hfull : tp.queue.allFull = true) :
    tpQueueSegment env tp tc = (tpRunOptimization env (tpJoinLast tp tc).1, .fail) := by
  obtain ⟨q, hjoin, hq, -⟩ := tpJoinLast_spec tp tc
  have hput : ∀ tc', tcqPut q tc' = none := fun _ => if_pos (hq.allFull.trans hfull)
  rw [tpQueueSegment_refused env hjoin (hput _), hjoin]

/-- The optimizer leaves the termination conditions, and whether a segment is final. -/
def Tc.SameEnd (a b : Tc K) : Prop := b.finalized = a.finalized ∧ b.termCond = a.termCond

theorem tpOptimizePair_sameEnd (env : TpEnv K) (tp : Tp K) (tc prevTc : Tc K) (depth : Int) :
    tc.SameEnd { (tpOptimizePair env tp tc prevTc).1 with activeDepth := depth } ∧
      prevTc.SameEnd (tpOptimizePair env tp tc prevTc).2 := by
  obtain ⟨_, _, _, _, heq, -⟩ := tpOptimizePair_eq env tp tc prevTc
  rw [heq]
  exact ⟨⟨rfl, rfl⟩, rfl, rfl⟩

theorem tpRunOptimization_sameEnd (env : TpEnv K) (tp : Tp K) :
    ∃ q, tpRunOptimization env tp = { tp with queue := q } ∧ tp.queue.Cells Tc.SameEnd q :=
  tpOptimizeFrom_cells (fun _ => ⟨rfl, rfl⟩) (fun h h' => ⟨h'.1.trans h.1, h'.2.trans h.2⟩) env
    (tpOptimizePair_sameEnd env) _ tp _ _ _

omit [Arith K] in
theorem setLast_self {α : Type} {q : Tcq α} {a : α} (h : tcqLast q = some a) : q.setLast a = q := by
  have hcell : q.queue q.lastIndex = a := by
    unfold tcqLast at h
    split at h
    · cases h
    · exact Option.some.inj h
  have hqueue : (fun i => if i = q.lastIndex then a else q.queue i) = q.queue := by
    funext i
    split
    · rename_i hi
      rw [hi, hcell]
    · rfl
  unfold Tcq.setLast
  rw [hqueue]

/-- The queue is as it was after a join and the look-ahead pass exactly if both leave it as it is. -/
theorem tpRunOptimization_joined {env : TpEnv K} {tp : Tp K} {prevTc : Tc K} (hw : tp.queue.WF)
    (hlast : tcqLast tp.queue = some prevTc) (tc : Tc K) :
    (∀ n, tcqItem (tpRunOptimization env (tpJoinLast tp tc).1).queue n = tcqItem tp.queue n) ↔
      JoinKeeps prevTc tc ∧ ∀ n, tcqItem (tpRunOptimization env tp).queue n = tcqItem tp.queue n := by
  have hkept : JoinKeeps prevTc tc → (tpJoinLast tp tc).1 = tp := by
    intro hjoin
    rw [tpJoinLast_some hlast, hjoin.joinedLast, setLast_self hlast]
  constructor
  · intro hitems
    have hitem := hlast
    rw [tcqLast_eq_item hw] at hitem
    have hpos : 0 < tp.queue.len := by
      have := (lt_of_tcqItem hitem).1
      omega
    have hjoin : JoinKeeps prevTc tc := by
      obtain ⟨q, heq, hcells⟩ := tpRunOptimization_sameEnd env (tpJoinLast tp tc).1
      have hafter := hitems (tp.queue.len - 1)
      rw [heq, hitem] at hafter
      obtain ⟨a, ha, hfinal, hcond⟩ := hcells.item hafter
      rw [tpJoinLast_some hlast] at ha
      have hjoined := @setItem_self _ tp.queue (tp.queue.len - 1) (by omega) (by omega) (joinedLast prevTc tc)
      rw [← setLast_eq_setItem hw hpos, ha] at hjoined
      obtain rfl := Option.some.inj hjoined
      exact ⟨hfinal.trans (joinedLast_finalized prevTc tc), fun hstops => hcond.trans (joinedLast_stops hstops)⟩
    rw [hkept hjoin] at hitems
    exact ⟨hjoin, hitems⟩
  · rintro ⟨hjoin, hitems⟩
    rw [hkept hjoin]
    exact hitems

/-! ### A queue with room -/

theorem tpQueueSegment_room (env : TpEnv K) {tp : Tp K} (hroom : tp.queue.allFull = false) (seg : Tc K) :
    ∃ q q₁ q₂ tc nextId depth, tp.queue.SameCells q ∧ tcqPut q tc = some q₁ ∧ q₁.SameCells q₂ ∧
      tc.coords = seg.coords ∧ tpQueueSegment env tp seg = ({ tp with
        queue := q₂, nextId := nextId, goalPos := tcGetEndpoint tc tp.goalPos, done := false,
        depth := depth }, .ok) := by
  obtain ⟨q, hjoin, hq, hsame⟩ := tpJoinLast_spec tp seg
  have hfull : ¬ q.allFull = true := by
    rw [hq.allFull, hroom]
    exact Bool.false_ne_true
  obtain ⟨q₁, hput⟩ : ∃ q₁, tcqPut q { (tpJoinLast tp seg).2 with id := tp.nextId } = some q₁ := ⟨_, if_neg hfull⟩
  obtain ⟨q₂, hrun, hq₂⟩ := tpRunOptimization_spec env (tp.append { (tpJoinLast tp seg).2 with id := tp.nextId } q₁)
  refine ⟨q, q₁, q₂, { (tpJoinLast tp seg).2 with id := tp.nextId }, Arith.i32 K (tp.nextId + 1), tcqLen q₁, hq,
    hput, hq₂, hsame.coords, ?_⟩
  rw [tpQueueSegment_appended env hjoin hput]
  exact congrArg (·, TpErr.ok) hrun

/-! ### The line command -/

/-- The line is long enough, and there is room for it. -/
structure Machine.LineFits (s : Machine K) : Prop where
  running : s.internal.coordTp.aborting = false
  long : ¬ (commandedSegment s).target < tpPosEpsilon
  room : s.internal.coordTp.queue.allFull = false

/-- Why the planner refuses a line without changing its queue: it is aborting, or the queue is full and nothing in it
would change. -/
def Machine.LineRefusable (s : Machine K) : Prop :=
  s.internal.coordTp.aborting = true ∨
    ¬ (commandedSegment s).target < tpPosEpsilon ∧ s.internal.coordTp.queue.allFull = true ∧ s.AppendKeeps

theorem lineAtomic_refused {s t : Machine K} (h : t.status.commandStatus ≠ .ok) :
    LineAtomic s t ↔ LineRefused s t := by
  have hnot : ¬ LineAppended s t := fun ha => h ha.status
  constructor
  · rintro (⟨ha, -⟩ | ⟨hr, -⟩)
    · exact absurd ha hnot
    · exact hr
  · exact fun hr => .inr ⟨hr, hnot⟩

theorem lineAtomic_accepted {s t : Machine K} (h : t.status.commandStatus = .ok) :
    LineAtomic s t ↔ LineAppended s t := by
  have hnot : ¬ LineRefused s t := fun hr => hr.status h
  constructor
  · rintro (⟨ha, -⟩ | ⟨hr, -⟩)
    · exact ha
    · exact absurd hr hnot
  · exact fun ha => .inl ⟨ha, hnot⟩

/-- A line the planner fails to append. -/
theorem appendLine_atomic_failed {s : Machine K} {tp : Tp K} (h : addCommandedLine s = (tp, .fail)) :
    LineAtomic s (appendLine s) ↔ tcqLen tp.queue = tcqLen s.internal.coordTp.queue ∧
      (∀ n, tcqItem tp.queue n = tcqItem s.internal.coordTp.queue n) ∧ tp.goalPos = s.internal.coordTp.goalPos ∧
      tp.nextId = s.internal.coordTp.nextId := by
  have hcode : (addCommandedLine s).2.code < 0 := by
    rw [h]
    exact (by decide : TpErr.fail.code < 0)
  have hplanner : (appendLine s).internal.coordTp = tpAbort tp := by
    unfold appendLine
    dsimp only
    rw [if_pos hcode, h]
    rfl
  have hcore := tpAbort_sameCore tp
  have hid : (tpAbort tp).nextId = tp.nextId := by
    unfold tpAbort tpPause
    split <;> rfl
  have hstatus := appendLine_failed hcode
  rw [lineAtomic_refused hstatus]
  constructor
  · rintro ⟨-, hlen, hitems, hgoal, hnext⟩
    rw [hplanner] at hlen hitems hgoal hnext
    rw [hcore.queue] at hlen hitems
    exact ⟨hlen, hitems, hcore.goalPos.symm.trans hgoal, hid.symm.trans hnext⟩
  · rintro ⟨hlen, hitems, hgoal, hnext⟩
    refine ⟨hstatus, ?_, ?_, ?_, ?_⟩
    · rw [hplanner, hcore.queue]
      exact hlen
    · rw [hplanner, hcore.queue]
      exact hitems
    · rw [hplanner, hcore.goalPos]
      exact hgoal
    · rw [hplanner, hid]
      exact hnext

/-- A line the planner does not report as failed. -/
theorem appendLine_passed {s : Machine K} {tp : Tp K} {res : TpErr} (h : addCommandedLine s = (tp, res))
    (hres : ¬ res.code < 0) :
    (appendLine s).status = s.status ∧ tp.SameCore (appendLine s).internal.coordTp := by
  unfold appendLine
  dsimp only
  rw [h, if_neg hres]
  exact ⟨rfl, tpSetSpindleSync_sameCore _ _ _ _⟩

/-- A line that is too short is acknowledged without being queued. -/
theorem appendLine_short {s : Machine K} (hok : s.status.commandStatus = .ok)
    (hrunning : s.internal.coordTp.aborting = false) (hshort : (commandedSegment s).target < tpPosEpsilon) :
    ¬ LineAtomic s (appendLine s) := by
  obtain ⟨hstatus, hcore⟩ := appendLine_passed (addCommandedLine_short hrunning hshort) (by decide)
  rw [lineAtomic_accepted (hstatus ▸ hok)]
  intro h
  have hlen : (appendLine s).internal.coordTp.queue.len = s.internal.coordTp.queue.len + 1 := h.len
  rw [hcore.queue, (linePlanner_fields s).1] at hlen
  omega

theorem appendLine_appended {s : Machine K} (hok : s.status.commandStatus = .ok) (hw : s.internal.coordTp.queue.WF)
    (h : s.LineFits) : LineAppended s (appendLine s) := by
  obtain ⟨hqueue, hgoal, -, -⟩ := linePlanner_fields s
  obtain ⟨q, q₁, q₂, tc, nextId, depth, hq, hput, hq₂, hcoords, hadd⟩ :=
    tpQueueSegment_room s.handlerEnv (hqueue.symm ▸ h.room) s.lineSegment
  rw [hqueue] at hq
  rw [← addCommandedLine_long h.running h.long] at hadd
  obtain ⟨hstatus, hcore⟩ := appendLine_passed hadd (by decide)
  have hwq := hq.wf hw
  obtain ⟨hw₁, -, hlen₁, -⟩ := tcqPut_wf hwq hput
  have hafter : (appendLine s).internal.coordTp.queue = q₂ := hcore.queue
  refine ⟨hstatus ▸ hok, ?_, ?_, ?_⟩
  · show (appendLine s).internal.coordTp.queue.len = s.internal.coordTp.queue.len + 1
    rw [hafter, hq₂.len, hlen₁, hq.len]
  -- a segment that was queued stays the same through the join, the append and the look-ahead
  · intro n tc₀ hitem
    rw [hafter]
    have hsame := hq.item (n := n)
    rw [hitem] at hsame
    have hn := (lt_of_tcqItem hitem).1
    have hput' := tcqPut_item hwq hput n
    rw [hq.len, if_neg (by omega)] at hput'
    have hsame₂ := hq₂.item (n := n)
    rw [hput'] at hsame₂
    generalize tcqItem q n = a at hsame hsame₂
    generalize tcqItem q₂ n = b at hsame₂ ⊢
    cases hsame with
    | some h =>
      cases hsame₂ with
      | some h₂ => exact ⟨_, rfl, h.trans h₂⟩
  · have hlast := hq₂.last
    rw [tcqPut_last hwq hput] at hlast
    rw [hafter]
    generalize tcqLast q₂ = b at hlast ⊢
    cases hlast with
    | some h₂ =>
      refine ⟨_, rfl, ?_, ?_⟩
      · rw [h₂.coords, hcoords, (lineSegment_same s).coords, commandedSegment_coords]
      · rw [hcore.goalPos, h₂.endpoint, hgoal]

theorem appendKeeps_iff {s : Machine K} {prevTc : Tc K} (hlast : tcqLast s.internal.coordTp.queue = some prevTc) :
    s.AppendKeeps ↔ JoinKeeps prevTc s.lineSegment ∧
      ∀ n, tcqItem (tpRunOptimization s.handlerEnv s.linePlanner).queue n = tcqItem s.internal.coordTp.queue n := by
  constructor
  · exact fun h => ⟨h.join prevTc hlast, h.lookAhead⟩
  · rintro ⟨hjoin, hahead⟩
    refine ⟨fun tc htc => ?_, hahead⟩
    rw [hlast] at htc
    cases htc
    exact hjoin

/-- A line for which there is no room. -/
theorem appendLine_atomic_full {s : Machine K} (hw : s.internal.coordTp.queue.WF)
    (habort : s.internal.coordTp.aborting = false) (hlong : ¬ (commandedSegment s).target < tpPosEpsilon)
    (hfull : s.internal.coordTp.queue.allFull = true) : LineAtomic s (appendLine s) ↔ s.KeepsId ∧ s.AppendKeeps := by
  obtain ⟨hqueue, hgoal, -, hid⟩ := linePlanner_fields s
  obtain ⟨prevTc, hlast⟩ : ∃ prevTc, tcqLast s.internal.coordTp.queue = some prevTc := by
    have hsize := hw.full_iff.1 hfull
    have hstart := hw.start_lt
    exact ⟨_, if_neg (by omega)⟩
  have hlast' : tcqLast s.linePlanner.queue = some prevTc := by
    rw [hqueue]
    exact hlast
  have hw' : s.linePlanner.queue.WF := by
    rw [hqueue]
    exact hw
  have hadd : addCommandedLine s =
      (tpRunOptimization s.handlerEnv (tpJoinLast s.linePlanner s.lineSegment).1, .fail) := by
    rw [addCommandedLine_long habort hlong]
    exact tpQueueSegment_full (by rw [hqueue]; exact hfull)
  have hjoined := @tpRunOptimization_joined _ _ s.handlerEnv _ _ hw' hlast' s.lineSegment
  obtain ⟨q, hjoin, hq, -⟩ := tpJoinLast_spec s.linePlanner s.lineSegment
  obtain ⟨q', hrun, hq'⟩ := tpRunOptimization_sameEnd s.handlerEnv (tpJoinLast s.linePlanner s.lineSegment).1
  have hlen : tcqLen (tpRunOptimization s.handlerEnv (tpJoinLast s.linePlanner s.lineSegment).1).queue =
      tcqLen s.internal.coordTp.queue := by
    rw [hrun]
    show q'.len = s.internal.coordTp.queue.len
    rw [hq'.len, hjoin, ← hqueue]
    exact hq.len
  have hfields : (tpRunOptimization s.handlerEnv (tpJoinLast s.linePlanner s.lineSegment).1).goalPos =
      s.linePlanner.goalPos ∧ (tpRunOptimization s.handlerEnv (tpJoinLast s.linePlanner s.lineSegment).1).nextId =
        s.linePlanner.nextId := by
    rw [hrun, hjoin]
    exact ⟨rfl, rfl⟩
  rw [hqueue] at hjoined
  rw [appendLine_atomic_failed hadd, hfields.1, hfields.2, hid, hjoined, ← appendKeeps_iff hlast]
  exact ⟨fun h => ⟨h.2.2.2, h.2.1⟩, fun h => ⟨hlen, h.2, hgoal, h.1⟩⟩

/-- The outcome of a line that has passed the checks of the handler. -/
theorem appendLine_atomic_iff {s : Machine K} (hok : s.status.commandStatus = .ok) (hw : s.internal.coordTp.queue.WF) :
    LineAtomic s (appendLine s) ↔ s.LineFits ∨ s.KeepsId ∧ s.LineRefusable := by
  obtain ⟨hqueue, hgoal, -, hid⟩ := linePlanner_fields s
  -- an abort, a line that is too short, a full queue, a line that fits
  cases habort : s.internal.coordTp.aborting with
  | true =>
    have hfits : ¬ s.LineFits := fun h => by
      have := h.running
      rw [habort] at this
      cases this
    rw [appendLine_atomic_failed (addCommandedLine_aborting habort), hqueue, hid, or_iff_right hfits]
    exact ⟨fun h => ⟨h.2.2.2, .inl habort⟩, fun h => ⟨rfl, fun _ => rfl, hgoal, h.1⟩⟩
  | false =>
    by_cases hshort : (commandedSegment s).target < tpPosEpsilon
    · refine iff_of_false (appendLine_short hok habort hshort) ?_
      rintro (h | ⟨-, h | h⟩)
      · exact h.long hshort
      · rw [habort] at h
        cases h
      · exact h.1 hshort
    · cases hfull : s.internal.coordTp.queue.allFull with
      | false =>
        have hfits : s.LineFits := ⟨habort, hshort, hfull⟩
        have happended := appendLine_appended hok hw hfits
        rw [lineAtomic_accepted happended.status]
        exact iff_of_true happended (.inl hfits)
      | true =>
        have hfits : ¬ s.LineFits := fun h => by
          have := h.room
          rw [hfull] at this
          cases this
        have hrefusable : s.LineRefusable ↔ s.AppendKeeps := by
          unfold Machine.LineRefusable
          rw [habort, hfull, or_iff_right Bool.false_ne_true, and_iff_right hshort, and_iff_right rfl]
        rw [or_iff_right hfits, hrefusable]
        exact appendLine_atomic_full hw habort hshort hfull

/-! ### The handler -/

omit [Arith K] in
theorem coordMoveRefused_none {s : Machine K} (hcoord : s.status.motionFlag.coord = true)
    (hen : s.status.motionFlag.enable = true) (hlimits : limitsOk s = true) : coordMoveRefused s = none := by
  unfold coordMoveRefused
  rw [hcoord, hen, hlimits]
  rfl

/-- A pending line that passes the checks of the handler. -/
structure LinePending (s : Machine K) : Prop where
  pending : s.Pending
  line : s.command.command = .setLine
  coord : s.status.motionFlag.coord = true
  enable : s.status.motionFlag.enable = true
  limits : limitsOk s = true

theorem LinePending.handled {s : Machine K} (h : LinePending s) (jogInhibit : Bool) :
    emcmotCommandHandler s jogInhibit = some (appendLine s.echo) := by
  have hline : setLine s.echo = appendLine s.echo := by
    unfold setLine
    rw [coordMoveRefused_echo.2 (coordMoveRefused_none h.coord h.enable h.limits)]
    rfl
  have hexecute : executeCommand s.echo jogInhibit = some (setLine s.echo) := by
    unfold executeCommand
    rw [show s.echo.command.command = .setLine from h.line]
  rw [← hline, ← hexecute]
  exact if_pos h.pending

theorem lineAtomic_echo {s t : Machine K} : LineAtomic s.echo t ↔ LineAtomic s t := by
  have happended : LineAppended s.echo t ↔ LineAppended s t :=
    ⟨fun h => ⟨h.status, h.len, h.before, h.last⟩, fun h => ⟨h.status, h.len, h.before, h.last⟩⟩
  have hrefused : LineRefused s.echo t ↔ LineRefused s t :=
    ⟨fun h => ⟨h.status, h.len, h.items, h.goalPos, h.nextId⟩, fun h => ⟨h.status, h.len, h.items, h.goalPos, h.nextId⟩⟩
  unfold LineAtomic
  rw [happended, hrefused]

theorem lineFits_echo {s : Machine K} : s.echo.LineFits ↔ s.LineFits :=
  ⟨fun h => ⟨h.running, h.long, h.room⟩, fun h => ⟨h.running, h.long, h.room⟩⟩

theorem lineRefusable_echo {s : Machine K} : s.echo.LineRefusable ↔ s.LineRefusable := by
  have hkeeps : s.echo.AppendKeeps ↔ s.AppendKeeps :=
    ⟨fun h => ⟨h.join, h.lookAhead⟩, fun h => ⟨h.join, h.lookAhead⟩⟩
  unfold Machine.LineRefusable
  rw [hkeeps]
  rfl

/-- Some writer publishes a line to where the path ends. -/
theorem shortLine_exists (numAxes : Int) : ∃ s t : Machine ℝ, Reachable numAxes s ∧ LinePending s ∧
    s.internal.coordTp.queue.WF ∧ emcmotCommandHandler s false = some t ∧ s.internal.coordTp.aborting = false ∧
    (commandedSegment s).target < tpPosEpsilon := by
  obtain ⟨v, hnet, -, hv, -, hflags⟩ := coordStart_exists numAxes fun _ => false
  obtain ⟨s, hs⟩ : ∃ s, s = { v with command := { v.command with
    command := .setLine, pos := emcPoseZero, ref := 0, commandNum := v.status.commandNumEcho + 1 } } := ⟨_, rfl⟩
  have hpending : LinePending s := by
    rw [hs]
    refine ⟨?_, rfl, hv.modes.2.2, hv.modes.2.1, ?_⟩
    · show v.status.commandNumEcho + 1 ≠ v.status.commandNumEcho
      omega
    · exact limitsOk_of_clear (s := v) hflags
  have hplanner : s.internal = v.internal := by rw [hs]
  refine ⟨s, _, ?_, hpending, ?_, hpending.handled false, ?_, ?_⟩
  · rw [hs]
    exact hnet.reachable.tail (.command v _)
  · rw [hplanner]
    exact hnet.reachable.sound.wf
  · rw [hplanner]
    exact hv.idle.aborting
  -- the line goes nowhere, so its segment has no length
  · have hend : lineEnd s = emcPoseZero := by
      rw [hs]
      rfl
    have htarget : (commandedSegment s).target = pmLine9Target (pmLine9Init (emcPoseZero : EmcPose ℝ) emcPoseZero) := by
      show pmLine9Target (pmLine9Init s.linePlanner.goalPos (lineEnd s)) = _
      rw [(linePlanner_fields s).2.1, hplanner, hv.goalPos, hend]
    have hzero : ∀ p : PmCartesian ℝ, (pmCartLineInit p p).tmagZero = true := by
      intro p
      have hd : pmCartCartSub p p = ⟨0, 0, 0⟩ := by simp [pmCartCartSub]
      have hfuzz : fabs (pmCartInfNorm (⟨0, 0, 0⟩ : PmCartesian ℝ)) < cartFuzz := by
        unfold pmCartInfNorm cartFuzz
        rw [fabs_real, fabs_real, fmax_real, fmax_real, abs_zero, max_self, max_self, abs_zero]
        norm_num
      unfold pmCartLineInit
      rw [hd]
      dsimp only
      rw [if_pos hfuzz]
    have hpoint : pmLine9Target (pmLine9Init (emcPoseZero : EmcPose ℝ) emcPoseZero) = 0 := by
      unfold pmLine9Target pmLine9Init
      dsimp only
      rw [hzero, hzero, hzero]
      rfl
    rw [htarget, hpoint]
    unfold tpPosEpsilon
    norm_num

/-- A line is queued or refused as a whole exactly if it is long enough and there is room for it, or the planner refuses
it without having changed its next id or its queue. -/
theorem lineCommand_atomic_iff {s t : Machine K} {jogInhibit : Bool} (hs : LinePending s)
    (hw : s.internal.coordTp.queue.WF) (ht : emcmotCommandHandler s jogInhibit = some t) :
    LineAtomic s t ↔ s.LineFits ∨ s.KeepsId ∧ s.LineRefusable := by
  rw [hs.handled jogInhibit] at ht
  obtain rfl := Option.some.inj ht
  rw [← lineAtomic_echo, ← lineFits_echo, ← lineRefusable_echo]
  exact appendLine_atomic_iff (s := s.echo) rfl hw

theorem lineCommand_atomic_short : ∃ s t : Machine ℝ, Reachable 3 s ∧ LinePending s ∧
    emcmotCommandHandler s false = some t ∧ (LineAtomic s t ↔ s.LineFits ∨ s.KeepsId ∧ s.LineRefusable) := by
  obtain ⟨s, t, hreach, hs, hw, ht, -⟩ := shortLine_exists 3
  exact ⟨s, t, hreach, hs, ht, lineCommand_atomic_iff hs hw ht⟩

theorem shortLine_not_atomic : ∃ s t : Machine ℝ, Reachable 3 s ∧ LinePending s ∧
    emcmotCommandHandler s false = some t ∧ ¬ LineAtomic s t := by
  obtain ⟨s, t, hreach, hs, -, ht, hrunning, hshort⟩ := shortLine_exists 3
  refine ⟨s, t, hreach, hs, ht, ?_⟩
  rw [hs.handled false] at ht
  obtain rfl := Option.some.inj ht
  rw [← lineAtomic_echo]
  exact appendLine_short (s := s.echo) rfl hrunning hshort

end SoemMotion
