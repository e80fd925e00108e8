import SoemMotion.QueueEnd
import SoemMotion.SegmentMotion

/-!
# Following the queued path

The stops of the lines the planner has accepted are a path.  Whatever calls append lines to it and run cycles, the
planner is on that path, at the point its head segment has come to, and it goes along it in one direction only.
-/

namespace SoemMotion

open Lib

/-! ### Appending a line -/

/-- A segment as it was queued and has been executed, without what later segments change of its plan. -/
def Tc.course (tc : Tc ℝ) : Tc ℝ :=
  { tc with
    maxvel := 0, finalvel := 0, accRatioTan := 0, optimizationAtMax := false, activeDepth := 0, finalized := false
    termCond := .stop }

/-- The same segment with another plan, which may make it stop at its end. -/
structure Tc.Replanned (a b : Tc ℝ) : Prop where
  course : b.course = a.course
  termCond : b.termCond = a.termCond ∨ b.termCond = .stop

@[refl] theorem Tc.Replanned.refl (a : Tc ℝ) : a.Replanned a := ⟨rfl, .inl rfl⟩

theorem Tc.Replanned.trans {a b c : Tc ℝ} (h : a.Replanned b) (h' : b.Replanned c) : a.Replanned c :=
  ⟨h'.course.trans h.course, h'.termCond.elim (fun e => h.termCond.imp e.trans e.trans) .inr⟩

theorem Tc.Replanned.keeps {a b : Tc ℝ} (h : a.Replanned b) {β : Type} (f : Tc ℝ → β)
    (hf : ∀ tc : Tc ℝ, f tc.course = f tc) : f b = f a := by
  rw [← hf b, ← hf a]
  exact congrArg f h.course

theorem handleModeChange_replanned (prevTc tc : Tc ℝ) : prevTc.Replanned (handleModeChange prevTc tc).1 ∧
    (handleModeChange prevTc tc).2 = { tc with blendPrev := (handleModeChange prevTc tc).2.blendPrev } ∧
    (tc.blendPrev = false → (handleModeChange prevTc tc).2.blendPrev = false) := by
  unfold handleModeChange
  dsimp only
  split
  · split <;> exact ⟨⟨rfl, .inr rfl⟩, rfl, fun _ => rfl⟩
  · split
    · exact ⟨⟨rfl, .inr rfl⟩, rfl, fun _ => rfl⟩
    · exact ⟨Tc.Replanned.refl _, rfl, fun h => h⟩

theorem tcFlagEarlyStop_replanned (prevTc tc : Tc ℝ) : prevTc.Replanned (tcFlagEarlyStop prevTc tc).1 ∧
    (tcFlagEarlyStop prevTc tc).2 = { tc with blendPrev := (tcFlagEarlyStop prevTc tc).2.blendPrev } ∧
    (tc.blendPrev = false → (tcFlagEarlyStop prevTc tc).2.blendPrev = false) := by
  unfold tcFlagEarlyStop
  dsimp only
  split
  · split <;> exact ⟨⟨rfl, .inr rfl⟩, rfl, fun _ => rfl⟩
  · split
    · exact ⟨⟨rfl, .inr rfl⟩, rfl, fun _ => rfl⟩
    · exact ⟨Tc.Replanned.refl _, rfl, fun h => h⟩

theorem tcFinalizeLength_replanned (tc : Tc ℝ) : tc.Replanned (tcFinalizeLength tc) := by
  obtain ⟨_, _, heq, -⟩ := tcFinalizeLength_eq tc
  rw [heq]
  exact ⟨rfl, .inl rfl⟩

/-- The join with the last segment. -/
theorem tpJoinLast_replanned {tp : Tp ℝ} (hw : tp.queue.WF) (tc : Tc ℝ) (hblend : tc.blendPrev = false) :
    ∃ q, (tpJoinLast tp tc).1 = { tp with queue := q } ∧ tp.queue.Cells Tc.Replanned q ∧ (tpJoinLast tp tc).2 = tc := by
  have hsame : ∀ u : Tc ℝ, u.blendPrev = false → { tc with blendPrev := u.blendPrev } = tc := fun u hu => by
    rw [hu, ← hblend]
  cases hlast : tcqLast tp.queue with
  | none =>
    rw [tpJoinLast_none hlast]
    exact ⟨_, rfl, Tcq.Cells.refl Tc.Replanned.refl _, rfl⟩
  | some prevTc =>
    obtain ⟨hmode, hnext, hblend₁⟩ := handleModeChange_replanned prevTc tc
    obtain ⟨hstop, hnext', hblend₂⟩ := tcFlagEarlyStop_replanned
      (tcFinalizeLength (handleModeChange prevTc tc).1) (handleModeChange prevTc tc).2
    have hjoined := (hmode.trans (tcFinalizeLength_replanned _)).trans hstop
    have hitem := hlast
    rw [tcqLast_eq_item hw] at hitem
    refine ⟨_, tpJoinLast_some hlast tc, ?_, ?_⟩
    · rw [setLast_eq_setItem hw (by have := (lt_of_tcqItem hitem).1; omega)]
      exact (Tcq.Cells.refl Tc.Replanned.refl tp.queue).setItem hitem hjoined
    · have htc : (handleModeChange prevTc tc).2 = tc := hnext.trans (hsame _ (hblend₁ hblend))
      unfold tpJoinLast
      rw [hlast]
      show (tcFlagEarlyStop (tcFinalizeLength (handleModeChange prevTc tc).1) (handleModeChange prevTc tc).2).2 = tc
      rw [htc] at hnext' hblend₂ ⊢
      exact hnext'.trans (hsame _ (hblend₂ hblend))

theorem tpRunOptimization_replanned (env : TpEnv ℝ) (tp : Tp ℝ) :
    ∃ q, tpRunOptimization env tp = { tp with queue := q } ∧ tp.queue.Cells Tc.Replanned q := by
  refine tpOptimizeFrom_cells Tc.Replanned.refl Tc.Replanned.trans env (fun u tc prevTc depth => ?_) _ tp _ _ _
  obtain ⟨_, _, _, _, heq, -⟩ := tpOptimizePair_eq env u tc prevTc
  rw [heq]
  exact ⟨⟨rfl, .inl rfl⟩, ⟨rfl, .inl rfl⟩⟩

/-- What a call that appends the line `seg` does and returns. -/
inductive LineResult (tp : Tp ℝ) (seg : Tc ℝ) : Tp ℝ × TpErr → Prop
  | refused {q : Tcq (Tc ℝ)} {err : TpErr} (hq : tp.queue.Cells Tc.Replanned q) (herr : err ≠ .ok) :
      LineResult tp seg ({ tp with queue := q }, err)
  | appended {q q₁ q₂ : Tcq (Tc ℝ)} {nextId depth : Int} (hlong : ¬ seg.target < tpPosEpsilon)
      (hq : tp.queue.Cells Tc.Replanned q) (hput : tcqPut q { seg with id := tp.nextId } = some q₁)
      (hq₂ : q₁.Cells Tc.Replanned q₂) :
      LineResult tp seg ({ tp with
        queue := q₂, nextId := nextId, goalPos := tcGetEndpoint seg tp.goalPos, done := false, depth := depth }, .ok)

theorem tpAddLine_line (env : TpEnv ℝ) {tp : Tp ℝ} (hw : tp.queue.WF) (stop : EmcPose ℝ) (canonMotionType : Int)
    (vel iniMaxvel acc : ℝ) (enables : UInt8) (atspeed : Bool) (indexerJnum : Int) :
    LineResult tp (newLine tp stop canonMotionType vel iniMaxvel acc enables atspeed indexerJnum)
      (tpAddLine env tp stop canonMotionType vel iniMaxvel acc enables atspeed indexerJnum) := by
  have hkept : ∀ err : TpErr, err ≠ .ok →
      LineResult tp (newLine tp stop canonMotionType vel iniMaxvel acc enables atspeed indexerJnum) (tp, err) :=
    fun err herr => .refused (Tcq.Cells.refl Tc.Replanned.refl _) herr
  unfold tpAddLine
  split
  · exact hkept _ (by decide)
  · dsimp only
    split
    · exact hkept _ (by decide)
    · rename_i hlong
      obtain ⟨seg, hseg⟩ : ∃ seg, newLine tp stop canonMotionType vel iniMaxvel acc enables atspeed indexerJnum = seg :=
        ⟨_, rfl⟩
      have hline : seg.blendPrev = false ∧ ¬ seg.target < tpPosEpsilon := by
        rw [← hseg]
        exact ⟨rfl, hlong⟩
      rw [hseg]
      change LineResult tp seg (tpQueueSegment env tp
        (newLine tp stop canonMotionType vel iniMaxvel acc enables atspeed indexerJnum))
      rw [hseg]
      obtain ⟨q, hjoin, hq, hsame⟩ := tpJoinLast_replanned hw seg hline.1
      cases hput : tcqPut q { seg with id := tp.nextId } with
      | none =>
        obtain ⟨q₂, hrun, hq₂⟩ := tpRunOptimization_replanned env { tp with queue := q }
        rw [tpQueueSegment_refused env hjoin (by rw [hsame]; exact hput), hrun]
        exact .refused (hq.trans Tc.Replanned.trans hq₂) (by decide)
      | some q₁ =>
        obtain ⟨q₂, hrun, hq₂⟩ := tpRunOptimization_replanned env (tp.append { seg with id := tp.nextId } q₁)
        rw [tpQueueSegment_appended env hjoin (by rw [hsame]; exact hput), hsame, hrun]
        exact .appended hline.2 hq hput hq₂

/-! ### The path -/

/-- The legs of the path from `start` through the stops. -/
def legs {α : Type} (start : α) : List α → List (α × α)
  | [] => []
  | stop :: stops => (start, stop) :: legs stop stops

theorem legs_length {α : Type} (start : α) (stops : List α) : (legs start stops).length = stops.length := by
  induction stops generalizing start with
  | nil => rfl
  | cons stop stops ih =>
    unfold legs
    rw [List.length_cons, List.length_cons, ih]

theorem legs_append {α : Type} (start : α) (stops more : List α) :
    legs start (stops ++ more) = legs start stops ++ legs (stops.getLastD start) more := by
  induction stops generalizing start with
  | nil => rfl
  | cons stop stops ih =>
    rw [List.cons_append, legs, legs, ih, List.cons_append, List.getLastD_cons]

/-- The length of the path. -/
noncomputable def pathLength (start : EmcPose ℝ) (stops : List (EmcPose ℝ)) : ℝ :=
  ((legs start stops).map fun l => legLength l.1 l.2).sum

theorem pathLength_append (start : EmcPose ℝ) (stops : List (EmcPose ℝ)) (stop : EmcPose ℝ) :
    pathLength start (stops ++ [stop]) = pathLength start stops + legLength (stops.getLastD start) stop := by
  unfold pathLength
  rw [legs_append, List.map_append, List.sum_append]
  simp [legs]

/-- What a segment that goes along its leg always has; `w` is the id that waits for the spindle. -/
structure Tc.Runs (w : Int) (p q : EmcPose ℝ) (tc : Tc ℝ) : Prop where
  leg : tc.OnLeg p q
  range : 0 ≤ tc.progress ∧ tc.progress ≤ tc.target
  vel : 0 ≤ tc.currentvel
  ends : tc.remove = true → tc.progress = tc.target
  blendingNext : tc.blendingNext = false
  termCond : tc.termCond ≠ .parabolic
  id : tc.id ≠ w
  indexer : tc.indexerJnum = -1

/-- Such a segment before it has been moved. -/
structure Tc.Ahead (w : Int) (p q : EmcPose ℝ) (tc : Tc ℝ) : Prop extends tc.Runs w p q where
  progress : tc.progress = 0
  currentvel : tc.currentvel = 0
  splitting : tc.splitting = false
  remove : tc.remove = false

section Segments

variable {w : Int} {p q : EmcPose ℝ} {a b : Tc ℝ}

theorem Tc.Runs.forward (h : a.Runs w p q) (hf : a.Forward b) (hremove : a.remove = false) : b.Runs w p q := by
  have htarget := hf.cycled.keeps Tc.target fun _ => rfl
  refine ⟨h.leg.cycled hf.cycled, ⟨h.range.1.trans hf.progress, hf.target.trans htarget.ge⟩, hf.vel, ?_,
    hf.blendingNext.trans h.blendingNext, ?_, ?_, (hf.cycled.keeps Tc.indexerJnum fun _ => rfl).trans h.indexer⟩
  · intro hb
    rcases hf.remove hb with ha | hend
    · rw [hremove] at ha
      cases ha
    · exact hend.trans htarget.symm
  · rw [hf.cycled.keeps Tc.termCond fun _ => rfl]
    exact h.termCond
  · rw [hf.cycled.keeps Tc.id fun _ => rfl]
    exact h.id

theorem Tc.Runs.poised (h : a.Runs w p q) (hp : a.Poised b) : b.Runs w p q := by
  have htarget := hp.cycled.keeps Tc.target fun _ => rfl
  refine ⟨h.leg.cycled hp.cycled, ?_, hp.currentvel.symm ▸ h.vel, ?_, hp.blendingNext h.blendingNext, ?_, ?_,
    (hp.cycled.keeps Tc.indexerJnum fun _ => rfl).trans h.indexer⟩
  · rw [hp.progress, htarget]
    exact h.range
  · rw [hp.remove, hp.progress, htarget]
    exact h.ends
  · rw [hp.cycled.keeps Tc.termCond fun _ => rfl]
    exact h.termCond
  · rw [hp.cycled.keeps Tc.id fun _ => rfl]
    exact h.id

theorem Tc.Ahead.poised (h : a.Ahead w p q) (hp : a.Poised b) : b.Ahead w p q :=
  ⟨h.toRuns.poised hp, hp.progress.trans h.progress, hp.currentvel.trans h.currentvel, hp.splitting.trans h.splitting,
    hp.remove.trans h.remove⟩

theorem Tc.Replanned.termCond_ne (h : a.Replanned b) (ha : a.termCond ≠ .parabolic) : b.termCond ≠ .parabolic := by
  rcases h.termCond with hsame | hstop
  · rw [hsame]
    exact ha
  · rw [hstop]
    exact TermCond.noConfusion

theorem Tc.Runs.replanned (h : a.Runs w p q) (hr : a.Replanned b) : b.Runs w p q := by
  have htarget := hr.keeps Tc.target fun _ => rfl
  have hprogress := hr.keeps Tc.progress fun _ => rfl
  refine ⟨⟨(hr.keeps Tc.coords fun _ => rfl).trans h.leg.coords, htarget.trans h.leg.target,
    h.leg.long, h.leg.unrounded⟩,
    ?_, (hr.keeps Tc.currentvel fun _ => rfl) ▸ h.vel, ?_, (hr.keeps Tc.blendingNext fun _ => rfl).trans h.blendingNext,
    hr.termCond_ne h.termCond, ?_, (hr.keeps Tc.indexerJnum fun _ => rfl).trans h.indexer⟩
  · rw [hprogress, htarget]
    exact h.range
  · rw [hr.keeps Tc.remove fun _ => rfl, hprogress, htarget]
    exact h.ends
  · rw [hr.keeps Tc.id fun _ => rfl]
    exact h.id

theorem Tc.Ahead.replanned (h : a.Ahead w p q) (hr : a.Replanned b) : b.Ahead w p q :=
  ⟨h.toRuns.replanned hr, (hr.keeps Tc.progress fun _ => rfl).trans h.progress,
    (hr.keeps Tc.currentvel fun _ => rfl).trans h.currentvel, (hr.keeps Tc.splitting fun _ => rfl).trans h.splitting,
    (hr.keeps Tc.remove fun _ => rfl).trans h.remove⟩

end Segments

theorem forall₂_comp {α β γ : Type} {R : α → β → Prop} {S : β → γ → Prop} {T : α → γ → Prop}
    (hRST : ∀ a b c, R a b → S b c → T a c) {as : List α} {bs : List β} {cs : List γ} (h : List.Forall₂ R as bs)
    (h' : List.Forall₂ S bs cs) : List.Forall₂ T as cs := by
  induction h generalizing cs with
  | nil =>
    cases h'
    exact .nil
  | cons hab _ ih =>
    cases h' with
    | cons hbc h' => exact .cons (hRST _ _ _ hab hbc) (ih h')

/-- The segments that have not been moved go from `q` through the stops. -/
abbrev AllAhead (w : Int) (q : EmcPose ℝ) (stops : List (EmcPose ℝ)) (rest : List (Tc ℝ)) : Prop :=
  List.Forall₂ (fun (l : EmcPose ℝ × EmcPose ℝ) (t : Tc ℝ) => t.Ahead w l.1 l.2) (legs q stops) rest

theorem AllAhead.mono {S : Tc ℝ → Tc ℝ → Prop} (hS : ∀ w p q a b, Tc.Ahead w p q a → S a b → Tc.Ahead w p q b) {w : Int}
    {q : EmcPose ℝ} {stops : List (EmcPose ℝ)} {rest r : List (Tc ℝ)} (h : AllAhead w q stops rest)
    (hr : List.Forall₂ S rest r) : AllAhead w q stops r :=
  forall₂_comp (fun l a b => hS w l.1 l.2 a b) h hr

theorem AllAhead.poised {w : Int} {q : EmcPose ℝ} {stops : List (EmcPose ℝ)} {rest r : List (Tc ℝ)}
    (h : AllAhead w q stops rest) (hr : List.Forall₂ Tc.Poised rest r) : AllAhead w q stops r :=
  h.mono (fun _ _ _ _ _ ha hp => ha.poised hp) hr

/-- The planner is on its way from `p` through the stops: its position, and the segments of its queue. -/
inductive Underway (w : Int) (p : EmcPose ℝ) : List (EmcPose ℝ) → EmcPose ℝ → List (Tc ℝ) → Prop
  | arrived : Underway w p [] p []
  | going {q : EmcPose ℝ} {stops : List (EmcPose ℝ)} {tc : Tc ℝ} {rest : List (Tc ℝ)} (hhead : tc.Runs w p q)
      (hrest : AllAhead w q stops rest) : Underway w p (q :: stops) (tcGetPos tc) (tc :: rest)

/-- How far the head segment has come. -/
def headProgress (items : List (Tc ℝ)) : ℝ := (items.head?.map Tc.progress).getD 0

theorem emcPoseAdd_sub (p q : EmcPose ℝ) : emcPoseAdd p (emcPoseSub q p) = q := by
  unfold emcPoseAdd emcPoseSub pmCartCartAdd pmCartCartSub
  simp

/-- The head segment has reached its stop, and the next one has not been moved. -/
theorem underway_next {w : Int} {q : EmcPose ℝ} {stops : List (EmcPose ℝ)} {rest : List (Tc ℝ)}
    (h : AllAhead w q stops rest) : Underway w q stops q rest ∧ headProgress rest = 0 := by
  cases stops with
  | nil =>
    cases h
    exact ⟨.arrived, rfl⟩
  | cons q' stops =>
    cases h with
    | @cons _ t _ rest ht hrest =>
      have hgo := Underway.going ht.toRuns hrest
      rw [ht.leg.position_start ht.progress] at hgo
      exact ⟨hgo, ht.progress⟩

theorem Tp.Moves.cycleTime {a b : Tp ℝ} (h : a.Moves b) : b.cycleTime = a.cycleTime := by
  obtain ⟨_, _, _, _, _, _, rfl⟩ := h
  rfl

theorem Tc.OnLeg.atEnd {p q : EmcPose ℝ} {tc : Tc ℝ} (h : tc.OnLeg p q) : tcGetPos tc.atEnd = q :=
  Tc.OnLeg.position_end ⟨h.coords, h.target, h.long, h.unrounded⟩ rfl

/-- A turn keeps the planner on its way: along its leg, or to the next one. -/
theorem Turn.underway {env : TpEnv ℝ} {tp : Tp ℝ} {tc t : Tc ℝ} {rest r : List (Tc ℝ)} {pos : EmcPose ℝ} {w : Int}
    {p q : EmcPose ℝ} {stops : List (EmcPose ℝ)} (h : Turn env tp tc rest pos t r) (hforward : tp.reverseRun = false)
    (hcycle : 0 ≤ tp.cycleTime) (hpos : tp.currentPos = tcGetPos tc) (hhead : tc.Runs w p q)
    (hrest : AllAhead w q stops rest) :
    (t.remove = false → Underway w p (q :: stops) pos (t :: r) ∧ tc.progress ≤ t.progress) ∧
      (t.remove = true → Underway w q stops pos r ∧ 0 ≤ headProgress r) := by
  cases h with
  | flagged hremove ht hr =>
    have hflag : t.remove = true := ht.remove.trans hremove
    refine ⟨fun hno => absurd (hflag.symm.trans hno) Bool.noConfusion, fun _ => ?_⟩
    obtain ⟨hnext, hzero⟩ := underway_next (hrest.poised hr)
    rw [hpos, hhead.leg.position_end (hhead.ends hremove)]
    exact ⟨hnext, hzero.ge⟩
  | @regular v t₀ _ next _ _ hremove hsplit hv ht ht' hr =>
    have hrest' := hrest.poised hr
    have hruns := hhead.poised ht
    have hforward' := tpAdvance_forward env next (hv.moves.reverseRun.trans hforward)
      (show 0 ≤ ({ t₀ with cycleTime := v.cycleTime } : Tc ℝ).progress ∧ _ from hruns.range)
      (.inl ⟨hruns.vel, (hv.moves.cycleTime.symm ▸ hcycle : 0 ≤ v.cycleTime)⟩)
    have hbegun : ({ t₀ with cycleTime := v.cycleTime } : Tc ℝ).Runs w p q :=
      ⟨⟨hruns.leg.coords, hruns.leg.target, hruns.leg.long, hruns.leg.unrounded⟩, hruns.range, hruns.vel, hruns.ends,
        hruns.blendingNext, hruns.termCond, hruns.id, hruns.indexer⟩
    have hafter := (hbegun.forward hforward' (ht.remove.trans hremove)).poised ht'
    rw [hpos, emcPoseAdd_sub]
    refine ⟨fun _ => ⟨.going hafter hrest', ?_⟩, fun hdone => ?_⟩
    · rw [ht'.progress, ← ht.progress]
      exact hforward'.progress
    · obtain ⟨hnext, hzero⟩ := underway_next hrest'
      rw [hafter.leg.position_end (hafter.ends hdone)]
      exact ⟨hnext, hzero.ge⟩
  | splitLast hremove hsplit ht =>
    refine ⟨fun hno => (by cases hno), fun _ => ?_⟩
    rw [hpos, emcPoseAdd_sub, (hhead.poised ht).leg.atEnd]
    obtain ⟨hnext, hzero⟩ := underway_next hrest
    exact ⟨hnext, hzero.ge⟩
  | @split v t₀ next n next2 rest hremove hsplit hv ht hn =>
    refine ⟨fun hno => (by cases hno), fun _ => ?_⟩
    rw [hpos, emcPoseAdd_sub, (hhead.poised ht).leg.atEnd]
    cases stops with
    | nil => cases hrest
    | cons q' stops =>
      cases hrest with
      | cons hnext hrest =>
        have hahead : n.Ahead w q q' := hnext.poised hn
        -- the velocity that is handed over changes nothing about where the segment is
        have hover : n.Cycled (t₀.handedOver v n) ∧ (t₀.handedOver v n).progress = n.progress ∧
            (t₀.handedOver v n).target = n.target ∧ (t₀.handedOver v n).remove = n.remove ∧
            (t₀.handedOver v n).blendingNext = n.blendingNext := by
          unfold Tc.handedOver
          split <;> exact ⟨rfl, rfl, rfl, rfl, rfl⟩
        obtain ⟨hcycled, hprogress, htarget, hflag, hblend⟩ := hover
        have hmoved := tpAdvance_forward env next2 (hv.reverseRun.trans hforward)
          (by rw [hprogress, htarget]; exact hahead.range) (.inr (hprogress.trans hahead.progress))
        generalize tpAdvance env v (t₀.handedOver v n) next2 = m at hmoved
        have hnext' : n.Forward m := by
          refine ⟨hcycled.trans hmoved.cycled, hprogress ▸ hmoved.progress, htarget ▸ hmoved.target, hmoved.vel, ?_,
            hmoved.blendingNext.trans hblend⟩
          rw [← hflag, ← htarget]
          exact hmoved.remove
        have hruns := hahead.toRuns.forward hnext' hahead.remove
        rw [hnext.leg.position_start hnext.progress, emcPoseAdd_sub]
        exact ⟨.going hruns hrest, hruns.range.1⟩

/-! ### Trips -/

/-- The planner, and the stops of the lines it has accepted. -/
structure Trip where
  tp : Tp ℝ
  stops : List (EmcPose ℝ)

/-- A planner at rest with nothing queued, that runs forward and knows where it is. -/
structure Tp.Parked (tp : Tp ℝ) : Prop where
  wf : tp.queue.WF
  forward : tp.reverseRun = false
  empty : tp.queue.len = 0
  aborting : tp.aborting = false
  termCond : tp.termCond = .tangent ∨ tp.termCond = .stop
  cycleTime : 0 < tp.cycleTime
  goalPos : tp.goalPos = tp.currentPos

/-- A call on the planner of a trip: the stop of an accepted line is added to the path. -/
noncomputable def Trip.run (s : Trip) (c : TpCall ℝ) : Trip where
  tp := c.run s.tp
  stops := match c with
    | .addLine env stop canonMotionType vel iniMaxvel acc enables atspeed indexerJnum =>
      if (tpAddLine env s.tp stop canonMotionType vel iniMaxvel acc enables atspeed indexerJnum).2 = .ok then
        s.stops ++ [stop] else s.stops
    | _ => s.stops

/-- The calls of a trip: cycles, and lines for which `P` holds of the goal, the stop and the acceleration if they are
accepted, that are not given the id that waits for the spindle and belong to no indexer. -/
def TpCall.OnTrip (P : EmcPose ℝ → EmcPose ℝ → ℝ → Prop) (tp : Tp ℝ) : TpCall ℝ → Prop
  | .addLine env stop canonMotionType vel iniMaxvel acc enables atspeed indexerJnum =>
    (tpAddLine env tp stop canonMotionType vel iniMaxvel acc enables atspeed indexerJnum).2 = .ok →
      tp.nextId ≠ tp.spindle.waitingForAtspeed ∧ indexerJnum = -1 ∧ P tp.goalPos stop acc
  | .runCycle _ => True
  | _ => False

def TripStep (P : EmcPose ℝ → EmcPose ℝ → ℝ → Prop) (s : Trip) (c : TpCall ℝ) (t : Trip) : Prop :=
  t = s.run c ∧ c.OnTrip P s.tp

/-- How far the planner has come along the path: the legs that are no longer queued, and the progress of the head. -/
noncomputable def Trip.travelled (start : EmcPose ℝ) (s : Trip) : ℝ :=
  pathLength start (s.stops.take (s.stops.length - s.tp.queue.items.length)) + headProgress s.tp.queue.items

/-- The planner follows the path through its stops. -/
structure Trip.Follows (start : EmcPose ℝ) (s : Trip) : Prop where
  wf : s.tp.queue.WF
  forward : s.tp.reverseRun = false
  cycleTime : 0 < s.tp.cycleTime
  termCond : s.tp.termCond ≠ .parabolic
  goalPos : s.tp.goalPos = s.stops.getLastD start
  path : ∃ passed queued, s.stops = passed ++ queued ∧
    Underway s.tp.spindle.waitingForAtspeed (passed.getLastD start) queued s.tp.currentPos s.tp.queue.items

theorem Underway.length {w : Int} {p : EmcPose ℝ} {stops : List (EmcPose ℝ)} {pos : EmcPose ℝ} {items : List (Tc ℝ)}
    (h : Underway w p stops pos items) : stops.length = items.length := by
  cases h with
  | arrived => rfl
  | going hhead hrest =>
    have hlen := hrest.length_eq
    rw [legs_length] at hlen
    rw [List.length_cons, List.length_cons, hlen]

theorem travelled_eq {start : EmcPose ℝ} {s : Trip} {passed queued : List (EmcPose ℝ)}
    (hstops : s.stops = passed ++ queued)
    (hlen : queued.length = s.tp.queue.items.length) :
    s.travelled start = pathLength start passed + headProgress s.tp.queue.items := by
  unfold Trip.travelled
  rw [← hlen, hstops, List.length_append, Nat.add_sub_cancel, List.take_left']
  rfl

theorem getLastD_append {α : Type} (a : α) (l l' : List α) : (l ++ l').getLastD a = l'.getLastD (l.getLastD a) := by
  induction l generalizing a with
  | nil => rfl
  | cons b l ih => rw [List.cons_append, List.getLastD_cons, List.getLastD_cons, ih]

theorem Tp.Parked.follows {tp : Tp ℝ} (h : tp.Parked) : Trip.Follows tp.currentPos ⟨tp, []⟩ := by
  refine ⟨h.wf, h.forward, h.cycleTime, ?_, h.goalPos, [], [], rfl, ?_⟩
  · rcases h.termCond with hcond | hcond
    · rw [show (⟨tp, []⟩ : Trip).tp.termCond = .tangent from hcond]
      exact TermCond.noConfusion
    · rw [show (⟨tp, []⟩ : Trip).tp.termCond = .stop from hcond]
      exact TermCond.noConfusion
  · rw [(items_nil_iff h.wf).2 h.empty]
    exact .arrived

/-- The planner on its way, with the settings it had. -/
theorem Trip.Follows.withPath {start : EmcPose ℝ} {s : Trip} (h : s.Follows start) (tp : Tp ℝ) (hwf : tp.queue.WF)
    (hsame : s.tp.SameSettings tp) {stops passed queued : List (EmcPose ℝ)} (hgoal : tp.goalPos = stops.getLastD start)
    (hstops : stops = passed ++ queued)
    (hway : Underway s.tp.spindle.waitingForAtspeed (passed.getLastD start) queued tp.currentPos tp.queue.items) :
    Trip.Follows start ⟨tp, stops⟩ := by
  refine ⟨hwf, hsame.reverseRun.trans h.forward, hsame.cycleTime.symm ▸ h.cycleTime, hsame.termCond.symm ▸ h.termCond,
    hgoal, passed, queued, hstops, ?_⟩
  show Underway tp.spindle.waitingForAtspeed _ _ _ _
  rw [hsame.waitingForAtspeed]
  exact hway

/-- A cycle that does not end an abort keeps the planner on the path and does not take it back. -/
theorem Trip.Follows.cycle {start : EmcPose ℝ} {s : Trip} (h : s.Follows start) (env : TpEnv ℝ)
    (hgo : ∀ tc rest, s.tp.queue.items = tc :: rest → tpAbortStopped s.tp tc rest.head? = false) :
    Trip.Follows start ⟨tpRunCycle env s.tp, s.stops⟩ ∧
      s.travelled start ≤ Trip.travelled start ⟨tpRunCycle env s.tp, s.stops⟩ ∧
        ((tpRunCycle env s.tp).aborting = true → s.tp.aborting = true) := by
  obtain ⟨passed, queued, hstops, hway⟩ := h.path
  rw [travelled_eq hstops hway.length]
  generalize hitems : s.tp.queue.items = items at hway
  generalize hpos : s.tp.currentPos = pos at hway
  cases hway with
  | arrived =>
    have hempty : s.tp.queue.len = 0 := (items_nil_iff h.wf).1 hitems
    have hrun := tpRunCycle_empty hempty env
    have hend : s.stops.getLastD start = passed.getLastD start := by rw [hstops, List.append_nil]
    have hfollows : Trip.Follows start ⟨tpRunCycle env s.tp, s.stops⟩ := by
      rw [hrun]
      refine ⟨tcqInit_wf (Nat.zero_lt_of_lt h.wf.start_lt), h.forward, h.cycleTime, h.termCond, ?_, passed,
        [], hstops, ?_⟩
      · exact hpos.trans hend.symm
      · show Underway _ (passed.getLastD start) [] s.tp.currentPos []
        rw [hpos]
        exact .arrived
    refine ⟨hfollows, ?_, ?_⟩
    · rw [travelled_eq (s := ⟨tpRunCycle env s.tp, s.stops⟩) hstops (by rw [hrun]; rfl), hrun]
      rfl
    · rw [hrun]
      exact fun h => Bool.noConfusion h
  | @going q stops tc rest hhead hrest =>
    obtain ⟨t, r, hturn, hitems', hwf, hgoal, hsame⟩ := tpRunCycle_turn env h.wf h.forward hitems (hgo tc rest hitems)
      hhead.blendingNext hhead.termCond hhead.id hhead.indexer
    obtain ⟨hstay, hnext⟩ := hturn.underway h.forward h.cycleTime.le hpos hhead hrest
    have hgoal' : (tpRunCycle env s.tp).goalPos = s.stops.getLastD start := hgoal.trans h.goalPos
    -- either the head is done and its leg lies behind, or the head goes on
    by_cases hremove : t.remove = true
    · rw [if_pos hremove] at hitems'
      obtain ⟨hway', hzero⟩ := hnext hremove
      have hstops' : s.stops = (passed ++ [q]) ++ stops := by rw [hstops, List.append_assoc, List.singleton_append]
      have hway'' : Underway s.tp.spindle.waitingForAtspeed ((passed ++ [q]).getLastD start) stops
          (tpRunCycle env s.tp).currentPos (tpRunCycle env s.tp).queue.items := by
        rw [List.getLastD_concat, hitems']
        exact hway'
      refine ⟨h.withPath _ hwf hsame hgoal' hstops' hway'', ?_, fun habort => hsame.aborting.symm.trans habort⟩
      rw [travelled_eq (s := ⟨tpRunCycle env s.tp, s.stops⟩) hstops' hway''.length, pathLength_append]
      have hleg : headProgress (tc :: rest) ≤ legLength (passed.getLastD start) q := by
        rw [← hhead.leg.target]
        exact hhead.range.2
      show _ ≤ _ + headProgress (tpRunCycle env s.tp).queue.items
      rw [hitems']
      linarith
    · have hno : t.remove = false := Bool.eq_false_iff.2 hremove
      rw [if_neg hremove] at hitems'
      obtain ⟨hway', hprogress⟩ := hstay hno
      rw [← hitems'] at hway'
      refine ⟨h.withPath _ hwf hsame hgoal' hstops hway', ?_, fun habort => hsame.aborting.symm.trans habort⟩
      rw [travelled_eq (s := ⟨tpRunCycle env s.tp, s.stops⟩) hstops hway'.length]
      show _ ≤ _ + headProgress (tpRunCycle env s.tp).queue.items
      rw [hitems']
      exact add_le_add_right hprogress _

theorem AllAhead.replanned {w : Int} {q : EmcPose ℝ} {stops : List (EmcPose ℝ)} {rest r : List (Tc ℝ)}
    (h : AllAhead w q stops rest) (hr : List.Forall₂ Tc.Replanned rest r) : AllAhead w q stops r :=
  h.mono (fun _ _ _ _ _ ha hp => ha.replanned hp) hr

theorem Tc.Replanned.position {a b : Tc ℝ} (h : a.Replanned b) : tcGetPos b = tcGetPos a := by
  unfold tcGetPos tcGetPosReal
  rw [h.keeps Tc.progress fun _ => rfl, h.keeps Tc.coords fun _ => rfl, h.keeps Tc.target fun _ => rfl]

/-- Another plan does not take the planner from its way, or move it. -/
theorem Underway.replanned {w : Int} {p pos : EmcPose ℝ} {stops : List (EmcPose ℝ)} {items items' : List (Tc ℝ)}
    (h : Underway w p stops pos items) (hr : List.Forall₂ Tc.Replanned items items') :
    Underway w p stops pos items' ∧ headProgress items' = headProgress items := by
  cases h with
  | arrived =>
    cases hr
    exact ⟨.arrived, rfl⟩
  | going hhead hrest =>
    cases hr with
    | cons ht hr =>
      rw [← ht.position]
      exact ⟨.going (hhead.replanned ht) (hrest.replanned hr), ht.keeps Tc.progress fun _ => rfl⟩

/-- A line from the last stop on. -/
theorem Underway.append {w : Int} {p pos stop : EmcPose ℝ} {stops : List (EmcPose ℝ)} {items : List (Tc ℝ)} {seg : Tc ℝ}
    (h : Underway w p stops pos items) (hseg : seg.Ahead w (stops.getLastD p) stop) :
    Underway w p (stops ++ [stop]) pos (items ++ [seg]) ∧ headProgress (items ++ [seg]) = headProgress items := by
  cases h with
  | arrived =>
    have hgo : Underway w p [stop] (tcGetPos seg) [seg] := .going hseg.toRuns .nil
    rw [hseg.leg.position_start hseg.progress] at hgo
    exact ⟨hgo, hseg.progress⟩
  | @going q stops tc rest hhead hrest =>
    refine ⟨.going hhead ?_, rfl⟩
    show AllAhead w q (stops ++ [stop]) (rest ++ [seg])
    unfold AllAhead
    rw [legs_append]
    refine List.rel_append hrest (.cons ?_ .nil)
    rw [List.getLastD_cons] at hseg
    exact hseg

/-- A new line of a planner whose goal is `p` is a leg from there. -/
theorem newLine_ahead {tp : Tp ℝ} {stop : EmcPose ℝ} {canonMotionType : Int} {vel iniMaxvel acc : ℝ} {enables : UInt8}
    {atspeed : Bool} {w : Int} (hlong : 1 ≤ legLength tp.goalPos stop) (hexact : LineExact tp.goalPos stop)
    (hcond : tp.termCond ≠ .parabolic) (hid : tp.nextId ≠ w) :
    ({ newLine tp stop canonMotionType vel iniMaxvel acc enables atspeed (-1) with id := tp.nextId } : Tc ℝ).Ahead w
      tp.goalPos stop :=
  ⟨⟨⟨rfl, rfl, hlong, hexact⟩, ⟨le_rfl, zero_le_one.trans hlong⟩, le_rfl, fun h => Bool.noConfusion h, rfl,
  hcond, hid, rfl⟩,
    rfl, rfl, rfl, rfl⟩

theorem Tc.OnLeg.endpoint {p q : EmcPose ℝ} {tc : Tc ℝ} (h : tc.OnLeg p q) (pos : EmcPose ℝ) :
    tcGetEndpoint tc pos = q := by
  rw [← h.atEnd]
  unfold tcGetEndpoint tcGetPos tcGetPosReal Tc.atEnd
  rw [h.coords]
  rfl

/-- A call that appends a line keeps the planner on the path, where it was. -/
theorem Trip.Follows.addLine {start : EmcPose ℝ} {s : Trip} (h : s.Follows start) (env : TpEnv ℝ) (stop : EmcPose ℝ)
    (canonMotionType : Int) (vel iniMaxvel acc : ℝ) (enables : UInt8) (atspeed : Bool) (indexerJnum : Int)
    (hcall : (TpCall.addLine env stop canonMotionType vel iniMaxvel acc enables atspeed indexerJnum).OnTrip
      (fun p q _ => 1 ≤ legLength p q → LineExact p q) s.tp) :
    Trip.Follows start (s.run (.addLine env stop canonMotionType vel iniMaxvel acc enables atspeed indexerJnum)) ∧
      s.travelled start = Trip.travelled start
        (s.run (.addLine env stop canonMotionType vel iniMaxvel acc enables atspeed indexerJnum)) := by
  obtain ⟨passed, queued, hstops, hway⟩ := h.path
  have hline := tpAddLine_line env h.wf stop canonMotionType vel iniMaxvel acc enables atspeed indexerJnum
  obtain ⟨r, hr⟩ : ∃ r, tpAddLine env s.tp stop canonMotionType vel iniMaxvel acc enables atspeed indexerJnum = r :=
    ⟨_, rfl⟩
  have hrun : s.run (.addLine env stop canonMotionType vel iniMaxvel acc enables atspeed indexerJnum) =
      ⟨r.1, if r.2 = .ok then s.stops ++ [stop] else s.stops⟩ := by
    rw [← hr]
    rfl
  change (tpAddLine env s.tp stop canonMotionType vel iniMaxvel acc enables atspeed indexerJnum).2 = .ok → _ at hcall
  rw [hr] at hline hcall
  rw [hrun, travelled_eq hstops hway.length]
  cases hline with
  | @refused q err hq herr =>
    rw [if_neg herr]
    obtain ⟨hway', hhead⟩ := hway.replanned hq.items
    refine ⟨h.withPath { s.tp with queue := q } (hq.wf h.wf) ⟨rfl, rfl, rfl, rfl, rfl⟩ h.goalPos hstops hway', ?_⟩
    rw [travelled_eq (s := ⟨{ s.tp with queue := q }, s.stops⟩) hstops hway'.length]
    exact congrArg _ hhead.symm
  | @appended q q₁ q₂ nextId depth hlong hq hput hq₂ =>
    rw [if_pos rfl]
    obtain ⟨hid, rfl, hexact⟩ := hcall rfl
    have hlength : 1 ≤ legLength s.tp.goalPos stop := not_lt.1 hlong
    have hstart : s.tp.goalPos = queued.getLastD (passed.getLastD start) := by
      rw [h.goalPos, hstops, getLastD_append]
    have hseg : ({ newLine s.tp stop canonMotionType vel iniMaxvel acc enables atspeed (-1) with
        id := s.tp.nextId } : Tc ℝ).Ahead s.tp.spindle.waitingForAtspeed (queued.getLastD (passed.getLastD start))
        stop := by
      rw [← hstart]
      exact newLine_ahead hlength (hexact hlength) h.termCond hid
    -- the line comes after the replanned segments, and the look-ahead replans them all once more
    obtain ⟨hway₁, hhead₁⟩ := hway.append hseg
    have hput' : List.Forall₂ Tc.Replanned (s.tp.queue.items ++ [{ newLine s.tp stop canonMotionType vel iniMaxvel acc
        enables atspeed (-1) with id := s.tp.nextId }]) q₁.items := by
      rw [tcqPut_items (hq.wf h.wf) hput]
      exact List.rel_append hq.items (.cons (Tc.Replanned.refl _) .nil)
    obtain ⟨hway₂, hhead₂⟩ := hway₁.replanned hput'
    obtain ⟨hway₃, hhead₃⟩ := hway₂.replanned hq₂.items
    have hgoal : tcGetEndpoint (newLine s.tp stop canonMotionType vel iniMaxvel acc enables atspeed (-1)) s.tp.goalPos =
        stop :=
      Tc.OnLeg.endpoint ⟨rfl, rfl, hlength, hexact hlength⟩ _
    have hstops' : s.stops ++ [stop] = passed ++ (queued ++ [stop]) := by rw [hstops, List.append_assoc]
    refine ⟨h.withPath { s.tp with
      queue := q₂, nextId := nextId,
      goalPos := tcGetEndpoint (newLine s.tp stop canonMotionType vel iniMaxvel acc enables
        atspeed (-1)) s.tp.goalPos, done := false, depth := depth } (hq₂.wf (tcqPut_wf (hq.wf h.wf) hput).1)
      ⟨rfl, rfl, rfl, rfl, rfl⟩ (hgoal.trans (List.getLastD_concat).symm) hstops' hway₃, ?_⟩
    rw [travelled_eq (s := ⟨_, s.stops ++ [stop]⟩) hstops' hway₃.length]
    exact congrArg _ ((hhead₃.trans hhead₂).trans hhead₁).symm

/-! ### Runs -/

/-- The planner is on the path: on the leg of its head segment, at the progress of that segment, or at the last stop. -/
structure Trip.OnPath (start : EmcPose ℝ) (s : Trip) : Prop where
  going : ∀ tc, tcqItem s.tp.queue 0 = some tc → ∃ l,
    (legs start s.stops)[s.stops.length - s.tp.queue.items.length]? = some l ∧
      (0 ≤ tc.progress ∧ tc.progress ≤ legLength l.1 l.2) ∧
        s.tp.currentPos = poseBetween l.1 l.2 (tc.progress / legLength l.1 l.2)
  arrived : s.tp.queue.len = 0 → s.tp.currentPos = s.stops.getLastD start

theorem Trip.Follows.onPath {start : EmcPose ℝ} {s : Trip} (h : s.Follows start) : s.OnPath start := by
  obtain ⟨passed, queued, hstops, hway⟩ := h.path
  have hlength := hway.length
  have hdone : s.stops.length - s.tp.queue.items.length = passed.length := by
    rw [hstops, List.length_append, hlength, Nat.add_sub_cancel]
  generalize hitems : s.tp.queue.items = items at hway
  generalize hpos : s.tp.currentPos = pos at hway
  constructor
  · intro tc htc
    rw [hdone, hstops, legs_append, List.getElem?_append_right (legs_length _ _).le, legs_length, Nat.sub_self, hpos]
    cases hway with
    | arrived =>
      have hlen := (items_nil_iff h.wf).1 hitems
      have := (lt_of_tcqItem htc).1
      omega
    | @going q stops tc' rest hhead hrest =>
      cases (tcqItem_zero hitems).symm.trans htc
      exact ⟨_, rfl, ⟨hhead.range.1, hhead.leg.target ▸ hhead.range.2⟩, hhead.leg.position⟩
  · intro hempty
    rw [(items_nil_iff h.wf).2 hempty] at hitems
    cases hway with
    | arrived => rw [hpos, hstops, List.append_nil]
    | going => cases hitems

theorem TpCall.OnTrip.mono {P Q : EmcPose ℝ → EmcPose ℝ → ℝ → Prop} (hPQ : ∀ p q acc, P p q acc → Q p q acc) {tp : Tp ℝ}
    {c : TpCall ℝ} (h : c.OnTrip P tp) : c.OnTrip Q tp := by
  cases c with
  | addLine => exact fun hok => ⟨(h hok).1, (h hok).2.1, hPQ _ _ _ (h hok).2.2⟩
  | runCycle => trivial
  | _ => exact h

/-- No abort is under way. -/
structure Trip.Goes (start : EmcPose ℝ) (s : Trip) : Prop extends s.Follows start where
  aborting : s.tp.aborting = false

/-- Whatever a trip does next, the planner stays on the path and does not go back. -/
theorem Trip.Goes.step {P : EmcPose ℝ → EmcPose ℝ → ℝ → Prop}
    (hP : ∀ p q acc, P p q acc → 1 ≤ legLength p q → LineExact p q) {start : EmcPose ℝ} {s t : Trip} {c : TpCall ℝ}
    (h : s.Goes start) (hc : TripStep P s c t) : t.Goes start ∧ s.travelled start ≤ t.travelled start := by
  obtain ⟨rfl, hcall⟩ := hc
  cases c with
  | addLine env stop canonMotionType vel iniMaxvel acc enables atspeed indexerJnum =>
    obtain ⟨hfollows, htravelled⟩ := h.toFollows.addLine env stop canonMotionType vel iniMaxvel acc enables atspeed
      indexerJnum (hcall.mono hP)
    refine ⟨⟨hfollows, ?_⟩, htravelled.le⟩
    have hline := tpAddLine_line env h.wf stop canonMotionType vel iniMaxvel acc enables atspeed indexerJnum
    show (tpAddLine env s.tp stop canonMotionType vel iniMaxvel acc enables atspeed indexerJnum).1.aborting = false
    generalize tpAddLine env s.tp stop canonMotionType vel iniMaxvel acc enables atspeed indexerJnum = r at hline
    cases hline <;> exact h.aborting
  | runCycle env =>
    obtain ⟨hfollows, htravelled, habort⟩ := h.toFollows.cycle env fun tc rest _ => by
      unfold tpAbortStopped
      rw [h.aborting]
      rfl
    refine ⟨⟨hfollows, ?_⟩, htravelled⟩
    exact Bool.eq_false_iff.2 fun hset => absurd (h.aborting.symm.trans (habort hset)) Bool.noConfusion
  | _ => exact hcall.elim

/-- The stop differs from the start in the translation only. -/
def XyzOnly (p q : EmcPose ℝ) (_ : ℝ) : Prop := emcPoseAbc q = emcPoseAbc p ∧ emcPoseUvw q = emcPoseUvw p

theorem pmCartLineInit_self (p : PmCartesian ℝ) : (pmCartLineInit p p).tmagZero = true := by
  have hzero : pmCartCartSub p p = ⟨0, 0, 0⟩ := by simp [pmCartCartSub]
  rw [pmCartLineInit_tmagZero, hzero]
  norm_num [pmCartInfNorm, cartFuzz, fabs_real, fmax_real]

theorem XyzOnly.lineExact {p q : EmcPose ℝ} {acc : ℝ} (h : XyzOnly p q acc) (hlong : 1 ≤ legLength p q) :
    LineExact p q := by
  refine ⟨.inr ?_, .inl h.1.symm, .inl h.2.symm⟩
  by_contra hzero
  unfold legLength pmLine9Target pmLine9Init at hlong
  dsimp only at hlong
  rw [h.1, h.2, pmCartLineInit_self, pmCartLineInit_self, Bool.eq_true_of_not_eq_false hzero] at hlong
  norm_num at hlong

/-- In every trip of lines that leave the rotary and the auxiliary axes alone, the planner is on the path at the
progress of its head segment, has come to the last stop when its queue is empty, and never goes back. -/
theorem trip_onPath {tp : Tp ℝ} (hstart : tp.Parked) {s : Trip} (h : Reaches (TripStep XyzOnly) ⟨tp, []⟩ s) :
    s.OnPath tp.currentPos ∧
      ∀ c t, TripStep XyzOnly s c t → s.travelled tp.currentPos ≤ t.travelled tp.currentPos := by
  have hgoes : s.Goes tp.currentPos := by
    refine h.invariant (I := Trip.Goes tp.currentPos) ?_ ⟨hstart.follows, hstart.aborting⟩
    intro u c v hu hc
    exact (hu.step (fun _ _ _ => XyzOnly.lineExact) hc).1
  exact ⟨hgoes.onPath, fun c t hc => (hgoes.step (fun _ _ _ => XyzOnly.lineExact) hc).2⟩

/-- The planner as the controller sets it up, with an id the spindle does not wait for. -/
noncomputable def parkedTp : Tp ℝ := tpSetId (tpSetCycleTime (tpInit zeroTp) 1) 1

theorem parkedTp_eq : parkedTp = { tpInit zeroTp with cycleTime := 1, nextId := 1 } := by
  unfold parkedTp tpSetId tpSetCycleTime
  rw [if_neg (by decide), if_neg (by norm_num)]

theorem parkedTp_parked : parkedTp.Parked := by
  rw [parkedTp_eq]
  exact ⟨tcqInit_wf (by show 0 < 2000; decide), rfl, rfl, rfl, .inl rfl, one_pos, rfl⟩

theorem parkedTp_settings : parkedTp.nextId = 1 ∧ parkedTp.spindle.waitingForAtspeed = 0 ∧
    parkedTp.goalPos = emcPoseZero ∧ parkedTp.currentPos = emcPoseZero ∧ parkedTp.cycleTime = 1 ∧
    parkedTp.aborting = false := by
  rw [parkedTp_eq]
  exact ⟨rfl, rfl, rfl, rfl, rfl, rfl⟩

/-- The call that appends a line to `x`. -/
noncomputable def lineCallTo (x : ℝ) : TpCall ℝ :=
  .addLine plainEnv { (emcPoseZero : EmcPose ℝ) with tran := ⟨x, 0, 0⟩ } 2 10 10 1 0 false (-1)

/-- The first cycle of a line. -/
theorem trip_onPath_line : (((⟨parkedTp, []⟩ : Trip).run (lineCallTo 100)).run (.runCycle plainEnv)).OnPath
    parkedTp.currentPos := by
  refine (trip_onPath parkedTp_parked (((Reaches.refl _).tail (e := lineCallTo 100) ⟨rfl, ?_⟩).tail
    (e := .runCycle plainEnv) ⟨rfl, trivial⟩)).1
  intro _
  obtain ⟨hid, hwait, hgoal, -⟩ := parkedTp_settings
  show parkedTp.nextId ≠ parkedTp.spindle.waitingForAtspeed ∧ -1 = -1 ∧ XyzOnly parkedTp.goalPos _ 1
  rw [hid, hwait, hgoal]
  exact ⟨one_ne_zero, rfl, rfl, rfl⟩

end SoemMotion
