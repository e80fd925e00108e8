import SoemMotion.CoordStart
import SoemMotion.FaultStop
import SoemMotion.PlannerRun

/-!
# Finished segments

The zeroed spindle record waits for the id zero, and every line that comes from the network is queued under the id zero,
since `tpSetId` gets the id of a command block that no frame writes.  So `tpCompleteSegment` takes every segment for one
that waits for the spindle, and never removes it.
-/

namespace SoemMotion

variable {K : Type} [Arith K]

/-! ### The ids of the segments -/

/-- Every cell of the queue holds a segment with the id zero. -/
def Tp.IdsZero (tp : Tp K) : Prop := ∀ i, (tp.queue.queue i).id = 0

theorem Tcq.SameCells.idsZero {a b : Tp K} (h : a.queue.SameCells b.queue) (ha : a.IdsZero) : b.IdsZero :=
  fun i => ((h.cell i).id).trans (ha i)

omit [Arith K] in
theorem tcqPop_cells {α : Type} {q q' : Tcq α} (h : tcqPop q = some q') : q'.queue = q.queue := by
  unfold tcqPop at h
  split at h
  · cases h
  · split at h <;> cases h <;> rfl

omit [Arith K] in
theorem tcqBackStep_cells {α : Type} {q q' : Tcq α} (h : tcqBackStep q = some q') : q'.queue = q.queue := by
  unfold tcqBackStep at h
  split at h
  · cases h
  · cases h
    rfl

theorem Tp.IdsZero.cycle {tp : Tp K} (h : tp.IdsZero) (env : TpEnv K) : (tpRunCycle env tp).IdsZero := by
  have hresult := tpRunCycle_result env tp
  generalize tpRunCycle env tp = tp' at hresult
  cases hresult with
  | emptied hqueue =>
    intro i
    rw [hqueue]
    exact h i
  | advanced ha => exact ha.sameCells.idsZero h
  | @popped u _ q ha hq hqueue =>
    have hsame : tp'.queue.queue = q.queue := by
      split at hqueue
      · exact tcqBackStep_cells hqueue
      · exact tcqPop_cells hqueue
    intro i
    rw [hsame]
    exact (hq.cell i).same.id.trans (h i)

theorem idsZero_plannerInvariant : PlannerInvariant (K := K) Tp.IdsZero where
  cycleTime _ _ h := h
  setPos tp pos h := by
    obtain ⟨_, _, heq⟩ := tpSetPos_eq tp pos
    rw [heq]
    exact h
  clear _ h := h
  cycle env _ h := h.cycle env
  pause _ h := h

omit [Arith K] in
theorem tcqPut_cells {q q' : Tcq (Tc K)} {tc : Tc K} (h : tcqPut q tc = some q') (hq : ∀ i, (q.queue i).id = 0)
    (htc : tc.id = 0) : ∀ i, (q'.queue i).id = 0 := by
  unfold tcqPut at h
  split at h
  · cases h
  · cases h
    intro i
    show (if i = q.end then tc else q.queue i).id = 0
    split
    · exact htc
    · exact hq i

theorem AppendResult.idsZero {tp tp' : Tp K} {seg : Tc K} (h : AppendResult tp seg tp') (hid : tp.nextId = 0)
    (hs : tp.IdsZero) : tp'.IdsZero := by
  cases h with
  | kept hq => exact fun i => ((hq.cell i).id).trans (hs i)
  | put hq hput hq₂ htc =>
    have h1 := tcqPut_cells hput (fun i => ((hq.cell i).id).trans (hs i)) (htc.trans hid)
    exact fun i => ((hq₂.cell i).id).trans (h1 i)

theorem PlannerCommand.idsZero {s : Machine K} {tp : Tp K} (h : PlannerCommand s tp) (hid : s.command.id = 0)
    (hs : s.internal.coordTp.IdsZero) : tp.IdsZero := by
  have hcore : ∀ {a b : Tp K}, a.SameCore b → a.IdsZero → b.IdsZero := by
    intro a b h ha i
    rw [h.queue]
    exact ha i
  cases h with
  | kept h => exact hcore h hs
  | appended _ hu hnext ha hv =>
    have hvalid : s.command.id ≠ motionInvalidId := by
      rw [hid]
      decide
    exact hcore hv (ha.idsZero ((hnext hvalid).trans hid) (hcore hu hs))

/-- What a run of the network keeps. -/
structure NetState (s : Machine K) : Prop where
  sound : s.internal.coordTp.Sound
  id : s.command.id = 0
  idsZero : s.internal.coordTp.IdsZero

theorem NetState.step {s t : Machine K} {e : Event K} (hs : NetState s) (h : Step s e t) (he : e.fromNetwork) :
    NetState t := by
  refine ⟨Step.sound hs.sound h, ?_, ?_⟩
  · cases h with
    | frame hf => exact (processFrame_planner hf).2.trans hs.id
    | command c => exact he.elim
    | handle hh => exact (emcmotCommandHandler_planner hh).2.trans hs.id
    | cycle hc =>
      rw [(emcmotController_cycleKeeps hc).command]
      exact hs.id
  · cases h with
    | frame hf =>
      rw [(processFrame_planner hf).1]
      exact hs.idsZero
    | command c => exact he.elim
    | handle hh => exact (emcmotCommandHandler_planner hh).1.idsZero hs.id hs.idsZero
    | cycle hc => exact emcmotController_planner idsZero_plannerInvariant hs.idsZero hc

theorem initMachine_netState (numAxes : Int) : NetState (initMachine numAxes : Machine K) := by
  refine ⟨initMachine_sound numAxes, ?_, ?_⟩
  · obtain ⟨_, _, _, _, _, _, _, h⟩ := initMachine_eq (K := K) numAxes
    rw [h]
    rfl
  · have hzero : (tpInit zeroTp : Tp K).IdsZero := fun _ => rfl
    have hset : (tpSetCycleTime (tpInit zeroTp) 0 : Tp K).IdsZero := by
      unfold tpSetCycleTime
      split
      · exact hzero
      · exact hzero
    have hinit : (initTp : Tp K).IdsZero := idsZero_plannerInvariant.setPos _ _ hset
    obtain ⟨_, _, _, _, _, _, _, h⟩ := initMachine_eq (K := K) numAxes
    rw [h]
    exact hinit

theorem NetReachable.netState {numAxes : Int} {s : Machine K} (h : NetReachable numAxes s) : NetState s :=
  h.invariant (fun _ _ _ hs hst => hs.step hst.1 hst.2) (initMachine_netState numAxes)

/-! ### The calls of the planner -/

/-- The machine before the `n`-th turn of the loop of a cycle. -/
def turnState (s : Machine K) (inp : Inputs) (n : Nat) : Machine K :=
  (coordFeed inp)^[n] (coordBegin (controllerFront s inp motionThreadPeriod))

/-- The cycle runs the planner for the `n`-th time. -/
structure CallsPlanner (s : Machine K) (inp : Inputs) (n : Nat) : Prop where
  coord : (controllerFront s inp motionThreadPeriod).status.motionState = .coord
  turns : ∀ k ≤ n, needNextPoint (turnState s inp k) = true

/-- That call of the planner ends with its head segment, left as `tc`, flagged for removal. -/
structure FlagsHead (s : Machine K) (inp : Inputs) (n : Nat) (tc : Tc K) : Prop extends CallsPlanner s inp n where
  segment : (tpRunSegment ((turnState s inp n).tpEnv inp.unlocked) (turnState s inp n).internal.coordTp).2 = some tc
  remove : tc.remove = true

/-- The planner after that call. -/
def callResult (s : Machine K) (inp : Inputs) (n : Nat) : Tp K :=
  tpRunCycle ((turnState s inp n).tpEnv inp.unlocked) (turnState s inp n).internal.coordTp

/-- The call removes the head of the queue. -/
def PopsHead (s : Machine K) (inp : Inputs) (n : Nat) : Prop :=
  (callResult s inp n).queue.len = (turnState s inp n).internal.coordTp.queue.len - 1

theorem turnState_planner {P : Tp K → Prop} (hP : PlannerInvariant P) {s : Machine K} (hs : P s.internal.coordTp)
    (inp : Inputs) (n : Nat) : P (turnState s inp n).internal.coordTp := by
  induction n with
  | zero => exact controllerFront_planner hP hs inp motionThreadPeriod
  | succ n ih =>
    unfold turnState
    rw [Function.iterate_succ_apply']
    exact hP.cycle _ _ ih

/-- A head with the id the spindle waits for stays. -/
theorem tpCompleteSegment_waiting {env : TpEnv K} {tp : Tp K} {tc : Tc K}
    (h : tp.spindle.waitingForAtspeed = tc.id) : tpCompleteSegment env tp tc = tp := by
  unfold tpCompleteSegment
  rw [if_pos h]

/-- A planner that waits for the id of every segment removes none. -/
theorem tpRunCycle_waiting (env : TpEnv K) {tp : Tp K} {tc : Tc K} (hs : tp.Sound) (hids : tp.IdsZero)
    (h : (tpRunSegment env tp).2 = some tc) :
    tpRunCycle env tp = (tpRunSegment env tp).1 ∧ (tpRunCycle env tp).queue.len = tp.queue.len ∧
      tcqItem (tpRunCycle env tp).queue 0 = some tc := by
  have hpair : tpRunSegment env tp = ((tpRunSegment env tp).1, some tc) := by rw [← h]
  obtain ⟨hadvances, ⟨t, ht, hsame⟩, hhead⟩ := tpRunSegment_advances hpair
  have hid : tc.id = 0 := by
    rw [hsame.same.id, ← (lt_of_tcqItem ht).2]
    exact hids _
  have hwait : (tpRunSegment env tp).1.spindle.waitingForAtspeed = tc.id := by
    rw [hid, hadvances.waitingForAtspeed, hs.noWait]
  have hcycle : tpRunCycle env tp = (tpRunSegment env tp).1 := by
    unfold tpRunCycle
    rw [hpair]
    dsimp only
    split
    · exact tpCompleteSegment_waiting hwait
    · rfl
  rw [hcycle]
  exact ⟨rfl, hadvances.sameCells.len, hhead hs.forward hs.size⟩

theorem flaggedHead_kept {numAxes : Int} {s : Machine K} (hs : NetReachable numAxes s) (inp : Inputs) (n : Nat)
    {tc : Tc K} (hflag : FlagsHead s inp n tc) :
    ¬ PopsHead s inp n ∧ tcqItem (callResult s inp n).queue 0 = some tc := by
  have hsound := turnState_planner sound_plannerInvariant hs.netState.sound inp n
  have hids := turnState_planner idsZero_plannerInvariant hs.netState.idsZero inp n
  obtain ⟨-, hlen, hhead⟩ := tpRunCycle_waiting ((turnState s inp n).tpEnv inp.unlocked) hsound hids hflag.segment
  refine ⟨?_, hhead⟩
  intro hpop
  have hsame : (callResult s inp n).queue.len = (turnState s inp n).internal.coordTp.queue.len := hlen
  unfold PopsHead at hpop
  omega

/-! ### A line from its start to its end -/

/-- The planner has the segment alone in its queue, and goes on with it. -/
structure Tp.Single (tp : Tp K) (tc : Tc K) : Prop where
  aborting : tp.aborting = false
  len : tp.queue.len = 1
  head : tcqItem tp.queue 0 = some tc

omit [Arith K] in
theorem Tp.Single.congr {a b : Tp K} {tc : Tc K} (h : a.Single tc) (hqueue : b.queue = a.queue)
    (habort : b.aborting = a.aborting) : b.Single tc :=
  ⟨habort.trans h.aborting, by rw [hqueue]; exact h.len, by rw [hqueue]; exact h.head⟩

/-- The segment as its cycle begins. -/
def Tc.begun (tc : Tc K) (accelRamp blendingNext onFinalDecel : Bool) : Tc K :=
  { tc with
    active := true, accelRamp := accelRamp, blendingNext := blendingNext, onFinalDecel := onFinalDecel
    isBlending := false }

/-- The cycle of a segment with nothing after it. -/
def tpCycleAlone (env : TpEnv K) (tp : Tp K) (tc : Tc K) : Tp K × Tc K × Option (Tc K) :=
  if tc.splitting then tpHandleSplitCycle env tp tc none else tpHandleRegularCycle env tp tc none

/-- The only segment is made active, and its cycle run. -/
theorem tpRunSegment_single (env : TpEnv K) {tp : Tp K} {tc : Tc K} (hforward : tp.reverseRun = false)
    (hs : tp.Single tc) (hsync : tc.synchronized = .none) :
    ∃ (tp' : Tp K) (tc' : Tc K) (motionType : Int) (accelRamp blendingNext onFinalDecel : Bool),
      tp' = { tpUpdateInitialStatus tp with motionType := motionType } ∧
      tc' = tc.begun accelRamp blendingNext onFinalDecel ∧
      tpRunSegment env tp = (tpStoreSegments (tpCycleAlone env tp' tc').1 (tpCycleAlone env tp' tc').2.1
        (tpCycleAlone env tp' tc').2.2, some (tpCycleAlone env tp' tc').2.1) := by
  have hnext : tcqItem tp.queue 1 = none := by
    unfold tcqItem
    rw [if_pos (.inr (by rw [hs.len]))]
  have hstop : tpAbortStopped (tpUpdateInitialStatus tp) tc none = false := by
    unfold tpAbortStopped
    rw [show (tpUpdateInitialStatus tp).aborting = false from hs.aborting]
    rfl
  -- whether the segment starts now or is active already, the record is the same
  obtain ⟨motionType, accelRamp, blendingNext, onFinalDecel, hact⟩ : ∃ motionType accelRamp blendingNext onFinalDecel,
      tpActivateSegment env (tpUpdateInitialStatus tp) tc =
        some ({ tpUpdateInitialStatus tp with motionType := motionType },
          { tc with
            active := true, accelRamp := accelRamp, blendingNext := blendingNext, onFinalDecel := onFinalDecel }) := by
    unfold tpActivateSegment
    by_cases hactive : tc.active = true
    · rw [if_pos hactive, ← hactive]
      exact ⟨_, _, _, _, rfl⟩
    · rw [if_neg hactive, if_neg (by rw [hsync]; simp)]
      exact ⟨_, _, _, _, rfl⟩
  have hsynced : ∀ (u : Tp K) (v : Tc K), v.synchronized = .none → tpSync u v none = (u, v, none) := by
    intro u v h
    unfold tpSync
    rw [h]
  refine ⟨_, _, motionType, accelRamp, blendingNext, onFinalDecel, rfl, rfl, ?_⟩
  unfold tpRunSegment
  dsimp only
  rw [hforward, hs.head]
  dsimp only
  rw [if_neg Bool.false_ne_true, hnext, hstop, if_neg Bool.false_ne_true, hact]
  dsimp only
  rw [hsynced]
  · rfl
  · exact hsync

theorem bisaturate_zero {x M : ℝ} (hM : 0 ≤ M) : bisaturate x M 0 = max 0 (min x M) := by
  unfold bisaturate
  split
  · rename_i hhigh
    rw [min_eq_right hhigh.le, max_eq_right hM]
  · rename_i hhigh
    rw [min_eq_left (not_lt.1 hhigh)]
    split
    · rename_i hlow
      rw [max_eq_left hlow.le]
    · rename_i hlow
      rw [max_eq_right (not_lt.1 hlow)]

/-- A segment whose velocity would become negative stops, where it is or, within a cycle of it, at its target. -/
theorem tcUpdateDistFromAccel_stops {tc : Tc ℝ} {acc : ℝ} (h : tc.currentvel + acc * tc.cycleTime < 0)
    (velDesired : ℝ) : ∃ progress onFinalDecel, (progress = tc.progress ∨
        progress = tc.target ∧ tc.target - tc.progress < tc.currentvel * tc.cycleTime) ∧
      tcUpdateDistFromAccel tc acc velDesired false =
        { tc with progress := progress, currentvel := 0, onFinalDecel := onFinalDecel } := by
  unfold tcUpdateDistFromAccel
  dsimp only
  rw [if_pos h]
  split
  · rename_i hnear
    exact ⟨_, _, .inr ⟨rfl, hnear⟩, rfl⟩
  · exact ⟨_, _, .inl rfl, rfl⟩

/-- Any other segment moves on with the mean of its velocities, not beyond its ends. -/
theorem tcUpdateDistFromAccel_moves {tc : Tc ℝ} {acc : ℝ} (h : 0 ≤ tc.currentvel + acc * tc.cycleTime)
    (htarget : 0 ≤ tc.target) (velDesired : ℝ) : ∃ onFinalDecel, tcUpdateDistFromAccel tc acc velDesired false =
      { tc with
        progress := max 0 (min (tc.progress +
          (tc.currentvel + (tc.currentvel + acc * tc.cycleTime)) / 2 * tc.cycleTime) tc.target)
        currentvel := tc.currentvel + acc * tc.cycleTime
        onFinalDecel := onFinalDecel } := by
  have hway : bisaturate (tc.progress + 1 * ((tc.currentvel + acc * tc.cycleTime + tc.currentvel) * 0.5 * tc.cycleTime))
      tc.target 0 = max 0 (min (tc.progress +
        (tc.currentvel + (tc.currentvel + acc * tc.cycleTime)) / 2 * tc.cycleTime) tc.target) := by
    rw [bisaturate_zero htarget]
    congr 2
    ring
  unfold tcUpdateDistFromAccel
  dsimp only
  rw [if_neg (not_lt.2 h), ← hway]
  exact ⟨_, rfl⟩

theorem tcUpdateDistFromAccel_kept (tc : Tc ℝ) (acc velDesired : ℝ) (hprogress : 0 ≤ tc.progress)
    (htarget : 0 ≤ tc.target) :
    0 ≤ (tcUpdateDistFromAccel tc acc velDesired false).progress ∧
    (tcUpdateDistFromAccel tc acc velDesired false).remove = tc.remove ∧
    (tcUpdateDistFromAccel tc acc velDesired false).active = tc.active ∧
    (tcUpdateDistFromAccel tc acc velDesired false).termCond = tc.termCond ∧
    (tcUpdateDistFromAccel tc acc velDesired false).synchronized = tc.synchronized := by
  rcases lt_or_ge (tc.currentvel + acc * tc.cycleTime) 0 with hneg | hnonneg
  · obtain ⟨progress, onFinalDecel, hway, heq⟩ := tcUpdateDistFromAccel_stops hneg velDesired
    rw [heq]
    refine ⟨?_, rfl, rfl, rfl, rfl⟩
    rcases hway with rfl | ⟨rfl, -⟩
    · exact hprogress
    · exact htarget
  · obtain ⟨onFinalDecel, heq⟩ := tcUpdateDistFromAccel_moves hnonneg htarget velDesired
    rw [heq]
    exact ⟨le_max_left _ _, rfl, rfl, rfl, rfl⟩

/-- Within the tolerance of its target, a blending segment is split at once, and stays. -/
theorem tpAdvance_splits (env : TpEnv ℝ) {tp : Tp ℝ} {tc : Tc ℝ} (nexttc : Option (Tc ℝ))
    (hforward : tp.reverseRun = false) (hterm : tc.termCond = .tangent) (hprogress : 0 ≤ tc.progress)
    (htarget : 0 ≤ tc.target) (hnear : tc.target ≤ 1) :
    (tpAdvance env tp tc nexttc).splitting = true ∧ (tpAdvance env tp tc nexttc).remove = tc.remove ∧
    (tpAdvance env tp tc nexttc).active = tc.active ∧
    (tpAdvance env tp tc nexttc).synchronized = tc.synchronized := by
  obtain ⟨u, hu, hblend⟩ : ∃ u : Tc ℝ, u =
      (if tc.blendingNext then tc else { tc with velAtBlendStart := tc.currentvel }) ∧
      u.progress = tc.progress ∧ u.target = tc.target ∧ u.remove = tc.remove ∧ u.active = tc.active ∧
      u.termCond = tc.termCond ∧ u.synchronized = tc.synchronized := by
    refine ⟨_, rfl, ?_⟩
    split <;> exact ⟨rfl, rfl, rfl, rfl, rfl, rfl⟩
  obtain ⟨h1, h2, h3, h4, h5, h6⟩ := hblend
  obtain ⟨acc, vel, hadv⟩ : ∃ acc vel, tpAdvance env tp tc nexttc =
      tpCheckEndCondition env tp (tcUpdateDistFromAccel u acc vel tp.reverseRun) nexttc := by
    rw [hu]
    exact ⟨_, _, rfl⟩
  rw [hforward] at hadv
  obtain ⟨k1, k2, k3, k4, k5⟩ := tcUpdateDistFromAccel_kept u acc vel (h1 ▸ hprogress) (h2 ▸ htarget)
  have htarget' := (tcUpdateDistFromAccel_cycled u acc vel false).same.target.trans h2
  generalize tcUpdateDistFromAccel u acc vel false = v at hadv k1 k2 k3 k4 k5 htarget'
  -- a line this short is near its end from the start
  have hdist : tcGetDistanceToGo { v with cycleTime := tp.cycleTime } tp.reverseRun ≤ (tpPosEpsilon : ℝ) := by
    rw [hforward]
    show v.target - v.progress ≤ 1
    rw [htarget']
    linarith
  rw [hadv]
  unfold tpCheckEndCondition
  dsimp only
  rw [if_pos hdist, hforward, k4, h5, hterm, if_neg Bool.false_ne_true]
  have hsplit : ∀ w : Tc ℝ, tcSetSplitCycle w 0 w.currentvel =
      { w with splitting := true, cycleTime := 0, termVel := w.currentvel } := by
    intro w
    unfold tcSetSplitCycle
    rw [if_neg (by simp)]
  rw [hsplit, if_neg (by decide)]
  exact ⟨rfl, k2.trans h3, k3.trans h4, k5.trans h6⟩

/-- A line of one unit is split in its first cycle. -/
theorem FreshLine.split (env : TpEnv ℝ) {tp : Tp ℝ} {tc : Tc ℝ} (hforward : tp.reverseRun = false)
    (hs : tp.Single tc) (h : FreshLine 1 tc) : ∃ tc', (tpRunSegment env tp).2 = some tc' ∧ tc'.splitting = true ∧
      tc'.remove = false ∧ tc'.synchronized = .none := by
  obtain ⟨tp', tc₁, _, _, _, _, htp, htc, hrun⟩ := tpRunSegment_single env hforward hs h.synchronized
  have hrev : tp'.reverseRun = false := by
    rw [htp]
    exact hforward
  have hfresh : FreshLine 1 tc ∧ tc₁.splitting = false ∧ tc₁.remove = false ∧ tc₁.progress = 0 ∧ tc₁.target = 1 ∧
      tc₁.termCond = .tangent ∧ tc₁.synchronized = .none := by
    rw [htc]
    exact ⟨h, h.flags.2.1, h.flags.2.2, h.rest.1, h.target.trans Int.cast_one, h.termCond, h.synchronized⟩
  obtain ⟨-, hsplit, hremove, hprogress, hone, hterm, hsync⟩ := hfresh
  have hpos : 0 ≤ tc₁.target := by
    rw [hone]
    norm_num
  obtain ⟨k1, k2, -, k4⟩ := @tpAdvance_splits env tp' { tc₁ with cycleTime := tp'.cycleTime } none hrev hterm
    hprogress.ge hpos hone.le
  refine ⟨_, congrArg Prod.snd hrun, ?_⟩
  unfold tpCycleAlone tpHandleRegularCycle
  rw [if_neg (ne_true_of_eq_false hsplit), if_neg (ne_true_of_eq_false hremove)]
  exact ⟨k1, k2.trans hremove, k4.trans hsync⟩

/-- A segment that is split ends with the next cycle. -/
theorem splitSegment_flagged (env : TpEnv K) {tp : Tp K} {tc : Tc K} (hforward : tp.reverseRun = false)
    (hs : tp.Single tc) (hsplit : tc.splitting = true) (hremove : tc.remove = false) (hsync : tc.synchronized = .none) :
    ∃ tc', (tpRunSegment env tp).2 = some tc' ∧ tc'.remove = true := by
  obtain ⟨tp', tc₁, _, _, _, _, -, htc, hrun⟩ := tpRunSegment_single env hforward hs hsync
  have hflags : tc₁.splitting = true ∧ tc₁.remove = false := by
    rw [htc]
    exact ⟨hsplit, hremove⟩
  refine ⟨_, congrArg Prod.snd hrun, ?_⟩
  unfold tpCycleAlone tpHandleSplitCycle
  rw [if_pos hflags.1, if_neg (ne_true_of_eq_false hflags.2)]

/-- A cycle of the planner that gets to its only segment keeps it there. -/
theorem tpRunCycle_single {env : TpEnv K} {tp : Tp K} {tc tc' : Tc K} (hsound : tp.Sound) (hids : tp.IdsZero)
    (hs : tp.Single tc) (h : (tpRunSegment env tp).2 = some tc') : (tpRunCycle env tp).Single tc' := by
  obtain ⟨hcycle, hlen, hhead⟩ := tpRunCycle_waiting env hsound hids h
  have hadvances := (tpRunSegment_advances
    (show tpRunSegment env tp = ((tpRunSegment env tp).1, some tc') by rw [← h])).1
  refine ⟨?_, hlen.trans hs.len, hhead⟩
  rw [hcycle, hadvances.aborting]
  exact hs.aborting

theorem tpRunSegment_coords {env : TpEnv K} {tp : Tp K} {tc tc' : Tc K} (hhead : tcqItem tp.queue 0 = some tc)
    (h : (tpRunSegment env tp).2 = some tc') : tc'.coords = tc.coords := by
  have hrun := tpRunSegment_run env tp
  rw [h] at hrun
  generalize (tpRunSegment env tp).1 = u at hrun
  cases hrun with
  | ran hhead' htc _ _ =>
    rw [hhead] at hhead'
    cases hhead'
    exact htc.same.coords

theorem CoordRunning.front_single {s : Machine ℝ} (hs : CoordRunning s) (hmask : s.NoOverride) {tc : Tc ℝ}
    (h : s.internal.coordTp.Single tc) (pos neg : Fin 3 → Bool) :
    (controllerFront s (switchInputs pos neg) motionThreadPeriod).internal.coordTp.Single tc := by
  obtain ⟨-, -, -, -, secs, hplanner⟩ := hs.front hmask pos neg
  obtain ⟨current, goal, heq⟩ := tpSetPos_eq ({ s.internal.coordTp with cycleTime := secs } : Tp ℝ) s.commandedPose
  rw [hplanner, heq]
  exact h.congr rfl rfl

theorem coordResult_single {inp : Inputs} {s : Machine K} {tc : Tc K} (h : (calledPlanner inp s).Single tc) :
    (coordResult inp s).internal.coordTp.Single tc := by
  rcases coordResult_planner inp s with heq | heq
  · rw [heq]
    exact h
  · rw [heq]
    exact h.congr rfl rfl

/-- One cycle with the line queued, whatever the planner makes of it. -/
theorem LineQueued.cycle {numAxes x : Int} {s : Machine ℝ} (hs : LineQueued x s) (hnet : NetReachable numAxes s) :
    ∃ tc, FreshLine x tc ∧ (controllerFront s restInputs motionThreadPeriod).internal.coordTp.Single tc ∧
    (controllerFront s restInputs motionThreadPeriod).internal.coordTp.reverseRun = false ∧
    ∀ tc', (tpRunSegment ((controllerFront s restInputs motionThreadPeriod).tpEnv restInputs.unlocked)
        (controllerFront s restInputs motionThreadPeriod).internal.coordTp).2 = some tc' →
      ∃ fuel t, emcmotController s restInputs motionThreadPeriod fuel = some t ∧ CoordRunning t ∧
        t.internal.coordTp.Single tc' := by
  obtain ⟨tc, hhead, hfresh⟩ := hs.line
  have hmask := hnet.reachable.noOverride
  have hsingle := hs.toCoordRunning.front_single hmask ⟨hs.aborting, hs.len, hhead⟩ (fun _ => false) fun _ => false
  have hsound := controllerFront_planner sound_plannerInvariant hnet.netState.sound restInputs motionThreadPeriod
  have hids := controllerFront_planner idsZero_plannerInvariant hnet.netState.idsZero restInputs motionThreadPeriod
  refine ⟨tc, hfresh, hsingle, hsound.forward, ?_⟩
  intro tc' hrun
  obtain ⟨fuel, t, ht, heq, hrunning⟩ := hs.toCoordRest.cycle hmask (fun _ => false) fun _ => false
  refine ⟨fuel, t, ht, hrunning, ?_⟩
  rw [heq]
  exact coordResult_single (tpRunCycle_single hsound hids hsingle hrun)

/-- The network brings about a single line whose last call is the next one. -/
theorem flaggedHead_exists (numAxes : Int) : ∃ (s : Machine ℝ) (inp : Inputs) (tc : Tc ℝ), NetReachable numAxes s ∧
    FlagsHead s inp 0 tc ∧ s.internal.coordTp.queue.len = 1 ∧ ∃ line, tc.coords = .line line := by
  obtain ⟨s₀, s₁, s, hserved⟩ := lineServed_exists numAxes (le_refl 1) (by decide)
  have hnet := hserved.reached
  have hidle := hserved.idle
  have hs := hserved.queued
  obtain ⟨tc, hfresh, hsingle, hforward, hcycle⟩ := hs.cycle hnet
  obtain ⟨tc₁, hrun, hsplit, hremove, hsync⟩ := hfresh.split _ hforward hsingle
  obtain ⟨fuel, t, ht, hrunning, hsingle₁⟩ := hcycle tc₁ hrun
  obtain ⟨hnet₁, -⟩ := cycle_netReachable hnet hidle ht
  obtain ⟨-, hcoord, hcubic, -⟩ := hrunning.front hnet₁.reachable.noOverride (fun _ => false) fun _ => false
  have hfront := hrunning.front_single hnet₁.reachable.noOverride hsingle₁ (fun _ => false) fun _ => false
  have hforward₁ := (controllerFront_planner sound_plannerInvariant hnet₁.netState.sound restInputs
    motionThreadPeriod).forward
  obtain ⟨tc₂, hlast, hflag⟩ := splitSegment_flagged
    ((controllerFront t restInputs motionThreadPeriod).tpEnv restInputs.unlocked) hforward₁ hfront hsplit hremove hsync
  obtain ⟨_, _, hline⟩ := hfresh.xyz
  refine ⟨t, restInputs, tc₂, hnet₁, ⟨⟨hcoord, ?_⟩, hlast, hflag⟩, hsingle₁.len, _, (tpRunSegment_coords hfront.head
    hlast).trans ((tpRunSegment_coords hsingle.head hrun).trans hline)⟩
  intro k hk
  rw [Nat.le_zero.1 hk]
  show ((controllerFront t restInputs motionThreadPeriod).axes 0).cubic.needNextPoint = true
  have hsame := hcubic 0
  unfold restInputs
  unfold switchInputs at hsame
  rw [hsame]
  exact (hrunning.ready 0).need

/-- No call of the planner in a run of the network removes a finished segment. -/
theorem flaggedHead_not_popped {numAxes : Int} {s : Machine K} (hs : NetReachable numAxes s) (inp : Inputs) (n : Nat)
    {tc : Tc K} (hflag : FlagsHead s inp n tc) :
    ¬ PopsHead s inp n ∧ tcqItem (callResult s inp n).queue 0 = some tc :=
  flaggedHead_kept hs inp n hflag

/-- A line of one unit. -/
theorem flaggedHead_not_popped_line : ∃ (s : Machine ℝ) (inp : Inputs) (tc : Tc ℝ), NetReachable 0 s ∧
    FlagsHead s inp 0 tc ∧ ¬ PopsHead s inp 0 ∧ tcqItem (callResult s inp 0).queue 0 = some tc := by
  obtain ⟨s, inp, tc, hs, hflag, -⟩ := flaggedHead_exists 0
  exact ⟨s, inp, tc, hs, hflag, flaggedHead_not_popped hs inp 0 hflag⟩

/-- The planner stays on that line. -/
theorem finishedLine_stays : ∃ (s : Machine ℝ) (inp : Inputs) (tc : Tc ℝ), NetReachable 0 s ∧
    s.internal.coordTp.queue.len = 1 ∧ (∃ line, tc.coords = .line line) ∧ FlagsHead s inp 0 tc ∧
    ¬ PopsHead s inp 0 := by
  obtain ⟨s, inp, tc, hs, hflag, hlen, hline⟩ := flaggedHead_exists 0
  exact ⟨s, inp, tc, hs, hlen, hline, hflag, (flaggedHead_kept hs inp 0 hflag).1⟩

end SoemMotion
