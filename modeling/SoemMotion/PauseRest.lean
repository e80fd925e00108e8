import SoemMotion.AbortRest

/-!
# Coming to rest in a pause

A pause asks every segment that is not synchronized for the velocity zero, as an abort does, but it keeps the queue.
The head segment brakes; a segment that is left within the tolerance of its end is still taken from the queue.  From
some cycle on the planner stands still, and everything it has not passed is still to come.
-/

namespace SoemMotion

open Lib

/-! ### A segment at rest -/

section Rest

variable {env : TpEnv ℝ} {tp : Tp ℝ} {tc : Tc ℝ}

theorem asksStop_pausing (hpause : tp.pausing = true) (hsync : tc.synchronized = .none) : AsksStop env tp tc := by
  intro v t hv ht
  have hpause' : v.pausing = true := by
    obtain ⟨_, _, _, _, _, _, rfl⟩ := hv
    exact hpause
  have hsync' : t.synchronized = .none := (ht.keeps Tc.synchronized fun _ => rfl).trans hsync
  have hscale : tpGetFeedScale env v t = 0 := by
    unfold tpGetFeedScale
    rw [hpause', hsync']
    rfl
  unfold tpGetRealTargetVel
  dsimp only
  rw [hscale, mul_zero, fmin_real]
  exact min_le_left _ _

/-- The test for the end moves a segment to its target only to have it taken from the queue. -/
theorem tpCheckEndCondition_place (hforward : tp.reverseRun = false) (env : TpEnv ℝ) (nexttc : Option (Tc ℝ)) :
    (tpCheckEndCondition env tp tc nexttc).splitting = true ∨
      (tpCheckEndCondition env tp tc nexttc).progress = tc.progress := by
  have hsplit : ∀ (u : Tc ℝ) (vf : ℝ), (tcSetSplitCycle u 0 vf).splitting = true := by
    intro u vf
    unfold tcSetSplitCycle
    rw [if_neg (by simp)]
  have hkept : ∀ (u : Tc ℝ) (splitTime vf : ℝ), (tcSetSplitCycle u splitTime vf).progress = u.progress := by
    intro u splitTime vf
    obtain ⟨_, _, _, heq⟩ := tcSetSplitCycle_eq u splitTime vf
    rw [heq]
  unfold tpCheckEndCondition
  dsimp only
  rw [hforward, Bool.or_false, Bool.false_or]
  split
  · left
    rw [if_neg Bool.false_ne_true]
    split
    · exact hsplit _ _
    · exact hsplit _ _
  · split
    · exact .inr rfl
    · split
      · exact .inr rfl
      · split
        · exact .inr rfl
        · split
          · exact .inl (hsplit _ _)
          · split
            · exact .inr (hkept _ _ _)
            · exact .inr rfl

/-- A segment at rest that is asked for no velocity is made ready to be taken from the queue, or it stays. -/
theorem tpAdvance_rests (hstop : tpGetRealTargetVel env tp tc ≤ 0) (hforward : tp.reverseRun = false)
    (nexttc : Option (Tc ℝ)) (ha : 0 < tcGetTangentialMaxAccel tc) (hdt : tpTimeEpsilon ≤ tc.cycleTime)
    (hrest : tc.currentvel = 0) (hrange : 0 ≤ tc.progress ∧ tc.progress ≤ tc.target) :
    (tpAdvance env tp tc nexttc).splitting = true ∨ (tpAdvance env tp tc nexttc).currentvel = 0 ∧
      (tpAdvance env tp tc nexttc).progress = tc.progress := by
  have hpos : 0 < tc.cycleTime := lt_of_lt_of_le (by unfold tpTimeEpsilon; norm_num) hdt
  have hslow := tpAdvance_brakes hstop hforward nexttc ha hdt hrest.ge hrange
  have hvel := (tpAdvance_forward env nexttc hforward hrange (.inl ⟨hrest.ge, hpos.le⟩)).vel
  rcases hslow with hsplit | hslow
  · exact .inl hsplit
  have hzero : (tpAdvance env tp tc nexttc).currentvel = 0 := by
    refine le_antisymm (hslow.trans ?_) hvel
    rw [hrest, zero_sub]
    exact max_le (neg_nonpos.2 (mul_pos ha hpos).le) le_rfl
  obtain ⟨u, hu⟩ : ∃ u, (if tc.blendingNext = true then tc else { tc with velAtBlendStart := tc.currentvel }) = u :=
    ⟨_, rfl⟩
  have hsame : u.progress = tc.progress ∧ u.target = tc.target ∧ u.currentvel = 0 ∧ u.cycleTime = tc.cycleTime := by
    rw [← hu]
    split <;> exact ⟨rfl, rfl, hrest, rfl⟩
  obtain ⟨hprogress, htarget, hvel', hcycle⟩ := hsame
  unfold tpAdvance at hzero ⊢
  rw [hu] at hzero ⊢
  dsimp only at hzero ⊢
  generalize (tpCycleAccel env tp u nexttc).1 = acc at hzero ⊢
  generalize (tpCycleAccel env tp u nexttc).2 = velDesired at hzero ⊢
  rw [hforward] at hzero ⊢
  obtain ⟨d, hd⟩ : ∃ d, tcUpdateDistFromAccel u acc velDesired false = d := ⟨_, rfl⟩
  rw [hd] at hzero ⊢
  have hkept : (tpCheckEndCondition env tp d nexttc).currentvel = d.currentvel := by
    obtain ⟨_, _, _, _, _, heq, -⟩ := tpCheckEndCondition_eq env tp d nexttc
    rw [heq]
  -- without a velocity before and after the cycle no way is covered
  have hstays : d.progress = tc.progress := by
    rw [hkept] at hzero
    by_cases hneg : u.currentvel + acc * u.cycleTime < 0
    · obtain ⟨progress, onFinalDecel, hplace, heq⟩ := tcUpdateDistFromAccel_stops hneg velDesired
      rw [← hd, heq]
      rcases hplace with hsame | ⟨-, hnear⟩
      · exact hsame.trans hprogress
      · rw [hvel', zero_mul, hprogress, htarget] at hnear
        linarith [hrange.2]
    · obtain ⟨onFinalDecel, heq⟩ := tcUpdateDistFromAccel_moves (not_lt.1 hneg)
        (by rw [htarget]; exact hrange.1.trans hrange.2) velDesired
      rw [← hd, heq] at hzero ⊢
      change u.currentvel + acc * u.cycleTime = 0 at hzero
      show max 0 (min (u.progress + (u.currentvel + (u.currentvel + acc * u.cycleTime)) / 2 * u.cycleTime) u.target) = _
      rw [hzero, hvel', add_zero, zero_div, zero_mul, add_zero, hprogress, htarget, min_eq_left hrange.2,
        max_eq_right hrange.1]
  have hends : (tpCheckEndCondition env tp d nexttc).splitting = true ∨
      (tpCheckEndCondition env tp d nexttc).progress = d.progress := tpCheckEndCondition_place hforward env nexttc
  rcases hends with hsplit | hplace
  · exact .inl hsplit
  · exact .inr ⟨hzero, hplace.trans hstays⟩

end Rest

/-- A turn of a head segment at rest that is to stop leaves less to do, or it leaves the segment where it is. -/
theorem Turn.rests {env : TpEnv ℝ} {tp : Tp ℝ} {tc t : Tc ℝ} {rest r : List (Tc ℝ)} {pos : EmcPose ℝ} {w : Int}
    {p q : EmcPose ℝ} (h : Turn env tp tc rest pos t r) (hstop : AsksStop env tp tc) (hforward : tp.reverseRun = false)
    (hcycle : tpTimeEpsilon ≤ tp.cycleTime) (hhead : tc.Runs w p q) (haccel : 0 < tcGetTangentialMaxAccel tc)
    (hrest : tc.currentvel = 0) :
    Prod.Lex (· < ·) (· < ·) (brakingLeft tp.cycleTime (if t.remove = true then r else t :: r))
        (brakingLeft tp.cycleTime (tc :: rest)) ∨
      t.remove = false ∧ t.currentvel = 0 ∧ t.progress = tc.progress ∧
        brakingLeft tp.cycleTime (t :: r) = brakingLeft tp.cycleTime (tc :: rest) := by
  cases h with
  | flagged hremove ht hr => exact .inl (brakingLeft_popped _ hr.length_eq.symm (ht.remove.trans hremove))
  | @regular v t₀ _ next _ _ hremove hsplit hv ht ht' hr =>
    by_cases hdone : t.remove = true
    · exact .inl (brakingLeft_popped _ hr.length_eq.symm hdone)
    · have hcycle' : v.cycleTime = tp.cycleTime := hv.moves.cycleTime
      obtain ⟨t₁, ht₁⟩ : ∃ t₁, ({ t₀ with cycleTime := v.cycleTime } : Tc ℝ) = t₁ := ⟨_, rfl⟩
      have hcycled : tc.Cycled t₁ := by
        rw [← ht₁]
        exact ht.cycled
      have hsame : t₁.currentvel = 0 ∧ t₁.cycleTime = tp.cycleTime ∧ t₁.progress = tc.progress := by
        rw [← ht₁]
        exact ⟨ht.currentvel.trans hrest, hcycle', ht.progress⟩
      obtain ⟨hvel₁, hcycle₁, hprogress₁⟩ := hsame
      have htarget₁ : t₁.target = tc.target := hcycled.keeps Tc.target fun _ => rfl
      have haccel₁ : tcGetTangentialMaxAccel t₁ = tcGetTangentialMaxAccel tc := hcycled.keeps _ fun _ => rfl
      have hstays := tpAdvance_rests (hstop v t₁ hv.moves hcycled) (hv.moves.reverseRun.trans hforward) next
        (haccel₁ ▸ haccel) (hcycle₁ ▸ hcycle) hvel₁ (by rw [hprogress₁, htarget₁]; exact hhead.range)
      rw [ht₁] at ht'
      unfold brakingLeft
      rw [if_neg hdone, List.length_cons, List.length_cons, hr.length_eq]
      dsimp only
      rw [hsplit, if_neg Bool.false_ne_true]
      by_cases hsplits : t.splitting = true
      · left
        rw [if_pos hsplits]
        exact Prod.Lex.right _ (Nat.succ_pos _)
      · right
        obtain ⟨hzero, hplace⟩ := hstays.resolve_left (ht'.splitting ▸ hsplits)
        have hvel : t.currentvel = 0 := ht'.currentvel.trans hzero
        refine ⟨Bool.eq_false_iff.2 hdone, hvel, ht'.progress.trans (hplace.trans hprogress₁), ?_⟩
        rw [if_neg hsplits, hvel, hrest, zero_div, zero_div]
  | splitLast hremove hsplit ht => exact .inl (brakingLeft_popped _ rfl rfl)
  | split hremove hsplit hv ht hn => exact .inl (brakingLeft_popped _ rfl rfl)

/-! ### One cycle of a pause -/

/-- No queued segment is synchronized with the spindle. -/
def Tp.Unsynchronized (tp : Tp ℝ) : Prop := ∀ tc ∈ tp.queue.items, tc.synchronized = .none

/-- Every queued segment stands still. -/
def Tp.Still (tp : Tp ℝ) : Prop := ∀ tc ∈ tp.queue.items, tc.currentvel = 0

/-- A pause under way on the path through the stops; a planner whose queue has run empty is no longer paused. -/
structure Pausing (start : EmcPose ℝ) (stops : List (EmcPose ℝ)) (tp : Tp ℝ) : Prop
    extends Trip.Ready start ⟨tp, stops⟩ where
  pausing : tp.queue.items ≠ [] → tp.pausing = true
  unsynchronized : tp.Unsynchronized

theorem tpCompleteSegment_frame (env : TpEnv ℝ) (tp : Tp ℝ) (tc : Tc ℝ) :
    (tpCompleteSegment env tp tc).synchronized = tp.synchronized ∧
      (tpCompleteSegment env tp tc).pausing = tp.pausing := by
  unfold tpCompleteSegment
  split
  · exact ⟨rfl, rfl⟩
  · dsimp only
    split <;> exact ⟨rfl, rfl⟩

/-- A cycle synchronizes nothing, and it resumes the planner only with the queue empty. -/
theorem tpRunCycle_frame (env : TpEnv ℝ) (tp : Tp ℝ) :
    ((tpRunCycle env tp).synchronized = tp.synchronized ∨ (tpRunCycle env tp).synchronized = .none) ∧
      ((tpRunCycle env tp).queue.items ≠ [] → (tpRunCycle env tp).pausing = tp.pausing) := by
  have hrun := tpRunSegment_run env tp
  unfold tpRunCycle
  split
  · rename_i u h
    rw [h] at hrun
    generalize hr : (none : Option (Tc ℝ)) = r at hrun
    cases hrun with
    | empty => exact ⟨.inl rfl, fun hne => absurd rfl hne⟩
    | stopped => exact ⟨.inr rfl, fun hne => absurd rfl hne⟩
    | refused => exact ⟨.inl rfl, fun _ => rfl⟩
    | ran => cases hr
  · rename_i u tc h
    have hu : u.synchronized = tp.synchronized ∧ u.pausing = tp.pausing := by
      obtain ⟨_, _, ⟨_, _, _, _, _, _, rfl⟩, -, rfl⟩ := (tpRunSegment_advances h).1
      exact ⟨rfl, rfl⟩
    split
    · obtain ⟨hsync, hpause⟩ := tpCompleteSegment_frame env u tc
      exact ⟨.inl (hsync.trans hu.1), fun _ => hpause.trans hu.2⟩
    · exact ⟨.inl hu.1, fun _ => hu.2⟩

/-- A cycle of a pause leaves less to do, or the planner stands still. -/
theorem Pausing.cycle {start : EmcPose ℝ} {stops : List (EmcPose ℝ)} {tp : Tp ℝ} (h : Pausing start stops tp)
    (env : TpEnv ℝ) : Pausing start stops (tpRunCycle env tp) ∧
      Trip.travelled start ⟨tp, stops⟩ ≤ Trip.travelled start ⟨tpRunCycle env tp, stops⟩ ∧
      (Prod.Lex (· < ·) (· < ·) (tpRunCycle env tp).brakingLeft tp.brakingLeft ∨
        (tpRunCycle env tp).brakingLeft = tp.brakingLeft ∧ (tpRunCycle env tp).currentPos = tp.currentPos ∧
          tp.Still) := by
  have hstep : TripStep PulledLine ⟨tp, stops⟩ (.runCycle env) ⟨tpRunCycle env tp, stops⟩ := ⟨rfl, trivial⟩
  have hready := h.toReady.step hstep
  have hforth := (h.toGoes.step (fun _ _ _ hline _ => hline.1) hstep).2
  have hpausing : Pausing start stops (tpRunCycle env tp) := by
    refine ⟨hready, fun hne => ?_, ?_⟩
    · rw [(tpRunCycle_frame env tp).2 hne]
      refine h.pausing fun hempty => hne ?_
      rw [tpRunCycle_empty ((items_nil_iff h.wf).1 hempty)]
      rfl
    · exact tpRunCycle_items (fun ht hc => (hc.keeps Tc.synchronized fun _ => rfl).trans ht) h.unsynchronized h.forward
        env
  refine ⟨hpausing, hforth, ?_⟩
  obtain ⟨passed, queued, hstops, hway⟩ := h.path
  have hw : tp.queue.WF := h.wf
  change Underway tp.spindle.waitingForAtspeed _ _ tp.currentPos tp.queue.items at hway
  generalize hitems : tp.queue.items = items at hway
  generalize hpos : tp.currentPos = pos at hway
  cases hway with
  | arrived =>
    right
    have hempty := tpRunCycle_empty ((items_nil_iff hw).1 hitems) env
    refine ⟨?_, ?_, ?_⟩
    · unfold Tp.brakingLeft
      rw [hempty, hitems]
      rfl
    · rw [hempty]
      exact hpos
    · intro tc htc
      rw [hitems] at htc
      cases htc
  | @going q stops' tc rest hhead hrest =>
    have hgo : tpAbortStopped tp tc rest.head? = false := by
      unfold tpAbortStopped
      rw [show tp.aborting = false from h.aborting]
      rfl
    obtain ⟨t, r, hturn, hitems', hwf, hgoal, hsame⟩ := tpRunCycle_turn env hw h.forward hitems hgo
      hhead.blendingNext hhead.termCond hhead.id hhead.indexer
    have hmem : tc ∈ tp.queue.items := hitems ▸ List.mem_cons_self
    have hstop : AsksStop env tp tc := asksStop_pausing (h.pausing (List.ne_nil_of_mem hmem)) (h.unsynchronized tc hmem)
    have haccel := (h.pulls tc hmem).accel hhead.leg
    unfold Tp.brakingLeft
    rw [hsame.cycleTime, hitems', hitems]
    by_cases hzero : tc.currentvel = 0
    · rcases hturn.rests hstop h.forward h.long hhead haccel hzero with hless | ⟨hremove, hvel, hprogress, hleft⟩
      · exact .inl hless
      · right
        rw [if_neg (Bool.eq_false_iff.1 hremove)]
        refine ⟨hleft, ?_, ?_⟩
        · -- the head is on its leg at the same progress
          obtain ⟨hway', -⟩ := (hturn.underway h.forward h.cycleTime.le hpos hhead hrest).1 hremove
          generalize (tpRunCycle env tp).currentPos = pos' at hway'
          cases hway' with
          | going hhead' hrest' => rw [hhead'.leg.position, hhead.leg.position, hprogress]
        · intro u hu
          rw [hitems] at hu
          rcases List.mem_cons.1 hu with rfl | hu
          · exact hzero
          · obtain ⟨_, -, hahead⟩ := exists_of_forall₂ hrest hu
            exact hahead.currentvel
    · exact .inl (hturn.brakes hstop h.forward h.long hhead haccel hzero)

/-! ### The run of a pause -/

/-- A pause keeps the planner on the path, and from some cycle on where it is. -/
theorem Pausing.rests {start : EmcPose ℝ} {stops : List (EmcPose ℝ)} {tp : Tp ℝ} (h : Pausing start stops tp)
    (envs : Nat → TpEnv ℝ) : (∀ m, Pausing start stops (tpRunCycles envs tp m)) ∧
      ∃ n, ∀ m, n ≤ m → (tpRunCycles envs tp m).Still ∧
        (tpRunCycles envs tp m).currentPos = (tpRunCycles envs tp n).currentPos ∧
        (tpRunCycles envs tp m).queue.items.length = (tpRunCycles envs tp n).queue.items.length := by
  have hall : ∀ m, Pausing start stops (tpRunCycles envs tp m) := by
    intro m
    induction m with
    | zero => exact h
    | succ m ih => exact (ih.cycle (envs m)).1
  refine ⟨hall, ?_⟩
  -- what is left to do never grows, so from some cycle on it stays the same
  have hanti : Antitone fun m => toLex (tpRunCycles envs tp m).brakingLeft := by
    refine antitone_nat_of_succ_le fun m => ?_
    rcases ((hall m).cycle (envs m)).2.2 with hless | ⟨hsame, -⟩
    · exact le_of_lt hless
    · exact (congrArg toLex hsame).le
  obtain ⟨n, hn⟩ := WellFoundedLT.antitone_chain_condition hanti
  have hsame : ∀ m, n ≤ m → (tpRunCycles envs tp m).brakingLeft = (tpRunCycles envs tp n).brakingLeft :=
    fun m hm => (toLex.injective (hn m hm)).symm
  have hstays : ∀ m, n ≤ m → (tpRunCycles envs tp (m + 1)).currentPos = (tpRunCycles envs tp m).currentPos ∧
      (tpRunCycles envs tp m).Still := by
    intro m hm
    rcases ((hall m).cycle (envs m)).2.2 with hless | ⟨-, hpos, hstill⟩
    · rw [show tpRunCycle (envs m) (tpRunCycles envs tp m) = tpRunCycles envs tp (m + 1) from rfl,
        hsame (m + 1) (hm.trans (Nat.le_succ m)), hsame m hm] at hless
      exact absurd hless (irrefl _)
    · exact ⟨hpos, hstill⟩
  refine ⟨n, fun m hm => ⟨(hstays m hm).2, ?_, congrArg Prod.fst (hsame m hm)⟩⟩
  induction m, hm using Nat.le_induction with
  | base => rfl
  | succ m hm ih => exact (hstays m hm).1.trans ih

/-! ### Trips with pauses -/

/-- The calls of a trip that may also be paused and resumed. -/
def TpCall.OnHeldTrip (tp : Tp ℝ) : TpCall ℝ → Prop
  | .pause | .resume => True
  | c => c.OnTrip PulledLine tp

def HeldStep (s : Trip) (c : TpCall ℝ) (t : Trip) : Prop := t = s.run c ∧ c.OnHeldTrip s.tp

/-- What a pause finds in such a trip. -/
structure Trip.Held (start : EmcPose ℝ) (s : Trip) : Prop extends s.Ready start where
  synchronized : s.tp.synchronized = .none
  unsynchronized : s.tp.Unsynchronized

theorem Trip.Held.step {start : EmcPose ℝ} {s t : Trip} {c : TpCall ℝ} (h : s.Held start) (hc : HeldStep s c t) :
    t.Held start := by
  -- whether it is paused, the path does not tell
  have hpause : ∀ b, Trip.Held start ⟨{ s.tp with pausing := b }, s.stops⟩ := fun b =>
    ⟨⟨⟨⟨h.wf, h.forward, h.cycleTime, h.termCond, h.goalPos, h.path⟩, h.aborting⟩, h.long, h.pulls⟩, h.synchronized,
      h.unsynchronized⟩
  obtain ⟨rfl, hcall⟩ := hc
  cases c with
  | pause => exact hpause true
  | resume => exact hpause false
  | addLine env stop canonMotionType vel iniMaxvel acc enables atspeed indexerJnum =>
    refine ⟨h.toReady.step ⟨rfl, hcall⟩, ?_, ?_⟩
    · have hline := tpAddLine_line env h.wf stop canonMotionType vel iniMaxvel acc enables atspeed indexerJnum
      show (tpAddLine env s.tp stop canonMotionType vel iniMaxvel acc enables atspeed indexerJnum).1.synchronized = _
      generalize tpAddLine env s.tp stop canonMotionType vel iniMaxvel acc enables atspeed indexerJnum = r at hline
      cases hline <;> exact h.synchronized
    · exact tpAddLine_items (fun ht hr => (hr.keeps Tc.synchronized fun _ => rfl).trans ht) h.unsynchronized h.wf env
        stop canonMotionType vel iniMaxvel acc enables atspeed indexerJnum fun _ => h.synchronized
  | runCycle env =>
    refine ⟨h.toReady.step ⟨rfl, hcall⟩, ?_, ?_⟩
    · rcases (tpRunCycle_frame env s.tp).1 with hsame | hnone
      · exact hsame.trans h.synchronized
      · exact hnone
    · exact tpRunCycle_items (fun ht hc => (hc.keeps Tc.synchronized fun _ => rfl).trans ht) h.unsynchronized h.forward
        env
  | _ => exact hcall.elim

/-- Whenever a trip of lines is paused, the planner stays on the path and does not go back, and from some cycle on it
stands still with what it has not passed still queued. -/
theorem pause_rests {tp : Tp ℝ} (hstart : tp.Parked) (hlong : tpTimeEpsilon ≤ tp.cycleTime)
    (hsync : tp.synchronized = .none) {s : Trip} (h : Reaches HeldStep ⟨tp, []⟩ s) (envs : Nat → TpEnv ℝ) :
    (∀ m, Trip.OnPath tp.currentPos ⟨tpRunCycles envs (tpPause s.tp) m, s.stops⟩ ∧
        Trip.travelled tp.currentPos ⟨tpRunCycles envs (tpPause s.tp) m, s.stops⟩ ≤
          Trip.travelled tp.currentPos ⟨tpRunCycles envs (tpPause s.tp) (m + 1), s.stops⟩) ∧
      ∃ n, ∀ m, n ≤ m → (tpRunCycles envs (tpPause s.tp) m).Still ∧
        (tpRunCycles envs (tpPause s.tp) m).currentPos = (tpRunCycles envs (tpPause s.tp) n).currentPos ∧
        (tpRunCycles envs (tpPause s.tp) m).queue.items.length =
          (tpRunCycles envs (tpPause s.tp) n).queue.items.length := by
  have hheld : s.Held tp.currentPos := by
    refine h.invariant (I := Trip.Held tp.currentPos) (fun u c v hu hc => hu.step hc) ?_
    have hnone : tp.queue.items = [] := (items_nil_iff hstart.wf).2 hstart.empty
    refine ⟨⟨⟨hstart.follows, hstart.aborting⟩, hlong, ?_⟩, hsync, ?_⟩
    · intro tc htc
      rw [hnone] at htc
      cases htc
    · intro tc htc
      rw [hnone] at htc
      cases htc
  have hpaused := hheld.step (c := .pause) ⟨rfl, trivial⟩
  obtain ⟨hall, hrest⟩ := Pausing.rests ⟨hpaused.toReady, fun _ => rfl, hpaused.unsynchronized⟩ envs
  exact ⟨fun m => ⟨(hall m).toFollows.onPath, ((hall m).cycle (envs m)).2.1⟩, hrest⟩

/-- The first cycle of a line is followed by a pause. -/
theorem pause_rests_line : ∃ n, (tpRunCycles (fun _ => plainEnv)
    (tpPause (((⟨parkedTp, []⟩ : Trip).run (lineCallTo 100)).run (.runCycle plainEnv)).tp) n).Still := by
  obtain ⟨hid, hwait, hgoal, -, hcycle, -⟩ := parkedTp_settings
  have hline : PulledLine parkedTp.goalPos { (emcPoseZero : EmcPose ℝ) with tran := ⟨100, 0, 0⟩ } 1 := by
    rw [hgoal]
    refine ⟨⟨.inr ?_, .inl rfl, .inl rfl⟩, one_pos⟩
    show (pmCartLineInit ⟨0, 0, 0⟩ ⟨100, 0, 0⟩).tmagZero = false
    rw [pmCartLineInit_alongX (by norm_num)]
  obtain ⟨-, n, hrest⟩ := pause_rests parkedTp_parked (by rw [hcycle]; norm_num [tpTimeEpsilon])
    (by rw [parkedTp_eq]; rfl) (((Reaches.refl _).tail (e := lineCallTo 100)
    ⟨rfl, fun _ => ⟨by rw [hid, hwait]; exact one_ne_zero, rfl, hline⟩⟩).tail
      (e := .runCycle plainEnv) ⟨rfl, trivial⟩) fun _ => plainEnv
  exact ⟨n, (hrest n le_rfl).1⟩

end SoemMotion
