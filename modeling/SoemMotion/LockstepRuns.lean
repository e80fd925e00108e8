import SoemMotion.Lockstep

/-!
# Lockstep between commands

Lines are appended and axes enabled between two cycles.  In the middle of a segment a line makes axis 0 ask for a point
that the other active axes refuse, and an axis that joins has no point to interpolate from; only when a line is appended
while axis 0 is alone do the two make up for each other.  Where no such thing happens the axes stay in step for the
whole run, whatever the interpolation rate.
-/

namespace SoemMotion

variable {K : Type} [Arith K]

/-! ### Commands between two cycles -/

/-- The pending command is a line that the handler appends. -/
def Machine.AppendsLine (s : Machine K) : Prop :=
  s.command.commandNum ≠ s.status.commandNumEcho ∧ s.command.command = .setLine ∧ coordMoveRefused s.echo = none ∧
    0 ≤ (addCommandedLine s.echo).2.code

/-- The pending command enables an axis that is not active. -/
def Machine.JoinsAxis (s : Machine K) : Prop :=
  s.command.commandNum ≠ s.status.commandNumEcho ∧ s.command.command = .axisEnable ∧ s.hal.enable = true ∧
    ∃ i, axisIndex s.command.axis = some i ∧ (s.axes i).flag.active = false

/-- Write one command after the other, and call the handler after each. -/
def Machine.handleAll : List (Command K × Bool) → Machine K → Option (Machine K)
  | [], s => some s
  | (c, j) :: cs, s => (emcmotCommandHandler { s with command := c } j).bind (handleAll cs)

/-- `P` holds at one of these calls. -/
def AtSomeCall (P : Machine K → Prop) : List (Command K × Bool) → Machine K → Prop
  | [], _ => False
  | (c, j) :: cs, s =>
    P { s with command := c } ∨ ∃ t, emcmotCommandHandler { s with command := c } j = some t ∧ AtSomeCall P cs t

/-- What commands do to the axes, given whether a line is appended and whether an axis joins. -/
structure Interval (line join : Prop) (s t : Machine K) : Prop where
  coord : t.status.motionFlag.coord = s.status.motionFlag.coord
  others : ∀ i, i ≠ 0 → (t.axes i).cubic = (s.axes i).cubic
  unasked : ¬ line → (t.axes 0).cubic = (s.axes 0).cubic
  asked : line → (t.axes 0).cubic = { (s.axes 0).cubic with needNextPoint := true }
  active : ∀ i, (s.axes i).flag.active = true → (t.axes i).flag.active = true
  joined : join ↔ ∃ i, (s.axes i).flag.active = false ∧ (t.axes i).flag.active = true

omit [Arith K] in
/-- A machine whose axes have the same interpolators and the same ACTIVE bits. -/
theorem Interval.quiet {line join : Prop} {s t : Machine K} (hl : ¬ line) (hj : ¬ join)
    (hcoord : t.status.motionFlag.coord = s.status.motionFlag.coord) (hcubic : ∀ i, (t.axes i).cubic = (s.axes i).cubic)
    (hactive : ∀ i, (t.axes i).flag.active = (s.axes i).flag.active) : Interval line join s t where
  coord := hcoord
  others := fun i _ => hcubic i
  unasked := fun _ => hcubic 0
  asked := fun h => absurd h hl
  active := fun i hi => (hactive i).trans hi
  joined := by
    refine ⟨fun h => absurd h hj, ?_⟩
    rintro ⟨i, hoff, hon⟩
    rw [hactive i, hoff] at hon
    cases hon

omit [Arith K] in
theorem Interval.trans {line join line' join' : Prop} {s t u : Machine K} (h : Interval line join s t)
    (h' : Interval line' join' t u) : Interval (line ∨ line') (join ∨ join') s u where
  coord := h'.coord.trans h.coord
  others := fun i hi => (h'.others i hi).trans (h.others i hi)
  unasked := fun hno => (h'.unasked fun hl => hno (.inr hl)).trans (h.unasked fun hl => hno (.inl hl))
  asked := by
    intro hany
    by_cases hl' : line'
    · rw [h'.asked hl']
      by_cases hl : line
      · rw [h.asked hl]
      · rw [h.unasked hl]
    · rw [h'.unasked hl', h.asked (hany.resolve_right hl')]
  active := fun i hi => h'.active i (h.active i hi)
  joined := by
    constructor
    · rintro (hj | hj)
      · obtain ⟨i, hoff, hon⟩ := h.joined.1 hj
        exact ⟨i, hoff, h'.active i hon⟩
      · obtain ⟨i, hoff, hon⟩ := h'.joined.1 hj
        refine ⟨i, ?_, hon⟩
        by_contra hne
        exact Bool.false_ne_true (hoff.symm.trans (h.active i (Bool.eq_true_of_not_eq_false hne)))
    · rintro ⟨i, hoff, hon⟩
      cases hmid : (t.axes i).flag.active with
      | true => exact .inl (h.joined.2 ⟨i, hoff, hmid⟩)
      | false => exact .inr (h'.joined.2 ⟨i, hmid, hon⟩)

/-- SET_LINE. -/
theorem setLine_interval {join : Prop} (s : Machine K) (hj : ¬ join) :
    Interval (coordMoveRefused s = none ∧ 0 ≤ (addCommandedLine s).2.code) join s (setLine s) := by
  unfold setLine
  cases hrefused : coordMoveRefused s with
  | some t =>
    have hcoord := (coordMoveRefused_quiet hrefused).coord
    refine Interval.quiet (fun h => by cases h.1) hj hcoord ?_ (coordMoveRefused_quiet hrefused).active
    intro i
    obtain ⟨status, tp, -, -, rfl⟩ := coordMoveRefused_cases hrefused
    rfl
  | none =>
    show Interval _ join s (appendLine s)
    unfold appendLine
    generalize hadd : addCommandedLine s = added
    obtain ⟨tp, res⟩ := added
    dsimp only
    split
    · rename_i hneg
      exact Interval.quiet (fun h => absurd hneg (not_lt.2 h.2)) hj rfl (fun _ => rfl) fun _ => rfl
    · rename_i hpos
      refine ⟨rfl, ?_, fun hno => absurd ⟨rfl, not_lt.1 hpos⟩ hno, fun _ => rfl, ?_, ?_⟩
      · intro i hi
        exact congrArg Axis.cubic (if_neg hi)
      · intro i hi
        rw [← hi]
        exact (requestPoint_quiet _ 0).active i
      · refine ⟨fun h => absurd h hj, ?_⟩
        rintro ⟨i, hoff, hon⟩
        rw [(requestPoint_quiet _ 0).active i] at hon
        exact absurd (hoff.symm.trans hon) Bool.false_ne_true

omit [Arith K] in
/-- AXIS_ENABLE. -/
theorem axisEnable_interval {line : Prop} {s t : Machine K} (hl : ¬ line) (h : axisEnable s = some t) :
    Interval line (s.hal.enable = true ∧ ∃ i, axisIndex s.command.axis = some i ∧ (s.axes i).flag.active = false) s
      t := by
  rcases axisEnable_eq h with ⟨hoff, rfl⟩ | ⟨hen, hset⟩
  · refine Interval.quiet hl (fun hj => ?_) rfl (fun _ => rfl) fun _ => rfl
    exact Bool.false_ne_true (hoff.symm.trans hj.1)
  · obtain ⟨i, hi, -, hstatus, haxes⟩ := setAxisActive_eq hset
    have hcubic : ∀ j, (t.axes j).cubic = (s.axes j).cubic := by
      intro j
      rw [haxes]
      split <;> rfl
    refine ⟨by rw [hstatus], fun j _ => hcubic j, fun _ => hcubic 0, fun h => absurd h hl, ?_, ?_⟩
    · intro j hj
      rw [haxes]
      split
      · rfl
      · exact hj
    · constructor
      · rintro ⟨-, j, hj, hoff⟩
        refine ⟨j, hoff, ?_⟩
        rw [haxes, if_pos (Option.some.inj (hj.symm.trans hi))]
        rfl
      · rintro ⟨j, hoff, hon⟩
        rw [haxes] at hon
        split at hon
        · rename_i hji
          exact ⟨hen, i, hi, hji ▸ hoff⟩
        · exact absurd (hoff.symm.trans hon) Bool.false_ne_true

/-- One call of the handler. -/
theorem emcmotCommandHandler_interval {s t : Machine K} {j : Bool}
    (hc : s.command.command = .setLine ∨ s.command.command = .axisEnable) (h : emcmotCommandHandler s j = some t) :
    Interval s.AppendsLine s.JoinsAxis s t := by
  rcases emcmotCommandHandler_cases h with ⟨hne, hexec⟩ | ⟨heq, rfl⟩
  · rcases hc with hline | henable
    · have hj : ¬ s.JoinsAxis := fun hj => by
        have := hline.symm.trans hj.2.1
        cases this
      have hrun : executeCommand s.echo j = some (setLine s.echo) := by
        unfold executeCommand
        rw [show s.echo.command.command = .setLine from hline]
      rw [hrun] at hexec
      cases hexec
      have hint := @setLine_interval _ _ s.JoinsAxis s.echo hj
      have hiff : (coordMoveRefused s.echo = none ∧ 0 ≤ (addCommandedLine s.echo).2.code) ↔ s.AppendsLine :=
        ⟨fun h => ⟨hne, hline, h⟩, fun h => h.2.2⟩
      rw [hiff] at hint
      exact ⟨hint.coord, hint.others, hint.unasked, hint.asked, hint.active, hint.joined⟩
    · have hl : ¬ s.AppendsLine := fun hl => by
        have := henable.symm.trans hl.2.1
        cases this
      have hrun : executeCommand s.echo j = axisEnable s.echo := by
        unfold executeCommand
        rw [show s.echo.command.command = .axisEnable from henable]
      rw [hrun] at hexec
      have hint := axisEnable_interval hl hexec
      have hiff : (s.echo.hal.enable = true ∧
          ∃ i, axisIndex s.echo.command.axis = some i ∧ (s.echo.axes i).flag.active = false) ↔ s.JoinsAxis :=
        ⟨fun h => ⟨hne, henable, h⟩, fun h => h.2.2⟩
      rw [hiff] at hint
      exact ⟨hint.coord, hint.others, hint.unasked, hint.asked, hint.active, hint.joined⟩
  · exact Interval.quiet (fun h => h.1 heq) (fun h => h.1 heq) rfl (fun _ => rfl) fun _ => rfl

/-- All calls between two cycles. -/
theorem handleAll_interval {cs : List (Command K × Bool)}
    (hc : ∀ c ∈ cs, c.1.command = .setLine ∨ c.1.command = .axisEnable) {s t : Machine K}
    (h : Machine.handleAll cs s = some t) :
    Interval (AtSomeCall Machine.AppendsLine cs s) (AtSomeCall Machine.JoinsAxis cs s) s t := by
  induction cs generalizing s with
  | nil =>
    cases h
    exact Interval.quiet id id rfl (fun _ => rfl) fun _ => rfl
  | cons c cs ih =>
    obtain ⟨c, j⟩ := c
    obtain ⟨u, hu, ht⟩ := Option.bind_eq_some_iff.1 h
    have hfirst := emcmotCommandHandler_interval (s := { s with command := c }) (hc _ List.mem_cons_self) hu
    have hrest := ih (fun c' hc' => hc c' (List.mem_cons_of_mem _ hc')) ht
    have hall := hfirst.trans hrest
    have hsome : ∀ P : Machine K → Prop, AtSomeCall P ((c, j) :: cs) s ↔
        P { s with command := c } ∨ AtSomeCall P cs u := by
      intro P
      refine or_congr_right ⟨?_, fun h => ⟨u, hu, h⟩⟩
      rintro ⟨u', hu', h⟩
      cases hu.symm.trans hu'
      exact h
    rw [hsome, hsome]
    exact ⟨hall.coord, hall.others, hall.unasked, hall.asked, hall.active, hall.joined⟩

/-! ### Rounds -/

/-- Lines and enabled axes between two cycles, and the cycle after them. -/
structure LockRound (K : Type) where
  commands : List (Command K × Bool)
  codes : ∀ c ∈ commands, c.1.command = .setLine ∨ c.1.command = .axisEnable
  inp : Inputs
  period : Int
  fuel : Nat

/-- A round whose cycle is one in coordinated mode: the machine before that cycle, and after it. -/
def LockRound.run (r : LockRound K) (s : Machine K) : Option (Machine K × Machine K) :=
  (Machine.handleAll r.commands s).bind fun u =>
    if (controllerFront u r.inp r.period).status.motionState = .coord then
      (emcmotController u r.inp r.period r.fuel).map fun t => (u, t)
    else none

/-- In the middle of a segment no line is appended and no axis joins, or a line is appended while axis 0 is the only
active axis. -/
def LockRound.Harmless (r : LockRound K) (s : Machine K) : Prop :=
  needNextPoint s = true ∨
    ¬ AtSomeCall Machine.AppendsLine r.commands s ∧ ¬ AtSomeCall Machine.JoinsAxis r.commands s ∨
    AtSomeCall Machine.AppendsLine r.commands s ∧ ∀ i, i ≠ 0 → (s.axes i).flag.active = false

theorem LockRound.run_eq_some {r : LockRound K} {s u t : Machine K} : r.run s = some (u, t) ↔
    Machine.handleAll r.commands s = some u ∧
      (controllerFront u r.inp r.period).status.motionState = .coord ∧
      emcmotController u r.inp r.period r.fuel = some t := by
  constructor
  · intro h
    obtain ⟨v, hv, hrun⟩ := Option.bind_eq_some_iff.1 h
    split at hrun
    · rename_i hst
      obtain ⟨w, hw, heq⟩ := Option.map_eq_some_iff.1 hrun
      cases heq
      exact ⟨hv, hst, hw⟩
    · cases hrun
  · rintro ⟨hu, hst, ht⟩
    refine Option.bind_eq_some_iff.2 ⟨u, hu, ?_⟩
    rw [if_pos hst, ht]
    rfl

/-- Harmless commands keep the axes in step. -/
theorem Interval.inStep {r : LockRound K} {s u : Machine K} (h : s.InStep)
    (hi : Interval (AtSomeCall Machine.AppendsLine r.commands s) (AtSomeCall Machine.JoinsAxis r.commands s) s u)
    (hr : r.Harmless s) : u.InStep := by
  have hother : ∀ i, (u.axes i).cubic = (s.axes i).cubic ∨
      (u.axes i).cubic = { (s.axes i).cubic with needNextPoint := true } := by
    intro i
    by_cases h0 : i = 0
    · subst h0
      by_cases hl : AtSomeCall Machine.AppendsLine r.commands s
      · exact .inr (hi.asked hl)
      · exact .inl (hi.unasked hl)
    · exact .inl (hi.others i h0)
  have hset : ∀ i, (u.axes i).cubic.settings = (s.axes i).cubic.settings := by
    intro i
    rcases hother i with hc | hc <;> rw [hc]
    rfl
  have hasks : ∀ i, (s.axes i).cubic.needNextPoint = true → (u.axes i).cubic.needNextPoint = true := by
    intro i hi
    rcases hother i with hc | hc <;> rw [hc]
    exact hi
  refine ⟨fun i => ?_, ?_, fun i hoff => ?_, ?_⟩
  · rw [hset, hset, h.settings]
  · rw [allSet_of_settings (hset 0)]
    exact h.configured
  · have hoff' : (s.axes i).flag.active = false := by
      by_contra hne
      exact Bool.false_ne_true (hoff.symm.trans (hi.active i (Bool.eq_true_of_not_eq_false hne)))
    obtain ⟨hneed, hfilled⟩ := h.idle i hoff'
    refine ⟨hasks i hneed, ?_⟩
    rcases hother i with hc | hc <;> rw [hc] <;> exact hfilled
  · by_cases hneed : needNextPoint s = true
    · rcases h.progress with hask | ⟨h0, time, hmid⟩
      · refine .inl fun i _ => hasks i ?_
        cases hact : (s.axes i).flag.active with
        | false => exact (h.idle i hact).1
        | true => exact hask i hact
      · exact absurd ((hmid 0 h0).1.symm.trans hneed) Bool.false_ne_true
    · rcases hr with hask | ⟨hl, hj⟩ | ⟨hl, halone⟩
      · exact absurd hask hneed
      · -- nothing happens: the axes stay in the middle of the segment
        have hact : ∀ i, (u.axes i).flag.active = true → (s.axes i).flag.active = true := by
          intro i hon
          by_contra hoff
          exact hj (hi.joined.2 ⟨i, Bool.eq_false_iff.2 hoff, hon⟩)
        have hcubic : ∀ i, (u.axes i).cubic = (s.axes i).cubic := by
          intro i
          by_cases h0 : i = 0
          · subst h0
            exact hi.unasked hl
          · exact hi.others i h0
        rcases h.progress with hask | ⟨h0, time, hmid⟩
        · refine .inl fun i hon => ?_
          rw [hcubic]
          exact hask i (hact i hon)
        · refine .inr ⟨hi.active 0 h0, time, fun i hon => ?_⟩
          rw [hcubic]
          exact hmid i (hact i hon)
      · -- axis 0 asks again, and the axes that join have never had a point
        refine .inl fun i _ => ?_
        by_cases h0 : i = 0
        · subst h0
          rw [hi.asked hl]
        · exact hasks i (h.idle i (halone i h0)).1

/-- In the middle of a segment nothing drains the interpolators of a coordinated cycle. -/
theorem controllerFront_kept {u : Machine K} {inp : Inputs} {period : Int} (hcoord : u.status.motionFlag.coord = true)
    (hst : (controllerFront u inp period).status.motionState = .coord)
    (hset : ∀ i, (u.axes i).cubic.settings = (u.axes 0).cubic.settings) (i : Fin 3) :
    (u.axes i).cubic.SameProgress ((controllerFront u inp period).axes i).cubic := by
  obtain ⟨hen, hfault, -⟩ := (coordCycle_iff u inp period).1 hst
  have hf : faultFound (sampled u inp period) = false :=
    Bool.eq_false_iff.2 fun h => hfault ((faultFound_sampled u inp period).1 h)
  rw [controllerFront_cubic hen hf, hcoord, Bool.not_true, Bool.and_false, Bool.false_and, if_neg Bool.false_ne_true]
  exact (updatePeriod_cubic u period hset).2 i

/-- Commands that are not harmless break the lockstep in the next cycle. -/
theorem Interval.harmless {r : LockRound K} {s u t : Machine K} (h : s.InStep)
    (hcoord : needNextPoint s = false → s.status.motionFlag.coord = true)
    (hi : Interval (AtSomeCall Machine.AppendsLine r.commands s) (AtSomeCall Machine.JoinsAxis r.commands s) s u)
    (hst : (controllerFront u r.inp r.period).status.motionState = .coord)
    (ht : emcmotController u r.inp r.period r.fuel = some t) (hlock : InLockstep r.inp r.period r.fuel u t) :
    r.Harmless s := by
  cases hneed : needNextPoint s with
  | true => exact .inl hneed
  | false =>
    have hmid : (s.axes 0).flag.active = true ∧ ∃ time, ∀ i, (s.axes i).flag.active = true →
        (s.axes i).cubic.needNextPoint = false ∧ (s.axes i).cubic.filled = true ∧
          (s.axes i).cubic.interpolationTime = time := by
      refine h.progress.resolve_left fun hask => ?_
      have h0 : (s.axes 0).flag.active = true := by
        by_contra hoff
        exact Bool.false_ne_true (hneed.symm.trans (h.idle 0 (Bool.eq_false_iff.2 hoff)).1)
      exact Bool.false_ne_true (hneed.symm.trans (hask 0 h0))
    obtain ⟨h0, time, hmid⟩ := hmid
    have hset : ∀ i, (u.axes i).cubic.settings = (s.axes i).cubic.settings := by
      intro i
      by_cases hi0 : i = 0
      · subst hi0
        by_cases hl : AtSomeCall Machine.AppendsLine r.commands s
        · rw [hi.asked hl]
          rfl
        · rw [hi.unasked hl]
      · rw [hi.others i hi0]
    have hsame : ∀ i, (u.axes i).cubic.settings = (u.axes 0).cubic.settings := fun i => by
      rw [hset, hset, h.settings]
    have hkept := controllerFront_kept (hi.coord.trans (hcoord hneed)) hst hsame
    right
    by_cases hl : AtSomeCall Machine.AppendsLine r.commands s
    · -- axis 0 asks for a point, which the other axes refuse
      refine .inr ⟨hl, fun i hi0 => Bool.eq_false_iff.2 fun hon => ?_⟩
      have hall : ∀ k, ((controllerFront u r.inp r.period).axes k).cubic.allSet = true := by
        have hconf : (updatePeriod u r.period).Configured :=
          updatePeriod_configured (fun k => (allSet_of_settings (hset k)).trans (h.allSet k)) r.period
        exact controllerFront_cubics allSet_cubicInvariant hconf r.inp
      have hask : needNextPoint (controllerFront u r.inp r.period) = true := by
        refine ((hkept 0).1).trans ?_
        rw [hi.asked hl]
      have hrefuse : ((controllerFront u r.inp r.period).axes i).cubic.takes = false := by
        rw [Cubic.takes, (hkept i).1, hi.others i hi0, (hmid i hon).1, Bool.and_false]
      have htake : ((controllerFront u r.inp r.period).axes 0).cubic.takes = true := by
        rw [Cubic.takes, hall 0]
        exact hask
      have heq := hlock.accepted hask 0 i (hi.active 0 h0) (hi.active i hon)
      rw [htake, hrefuse] at heq
      cases heq
    · -- the axis that joins interpolates without a point
      refine .inl ⟨hl, fun hj => ?_⟩
      obtain ⟨i, hoff, hon⟩ := hi.joined.1 hj
      have hi0 : i ≠ 0 := by
        rintro rfl
        exact Bool.false_ne_true (hoff.symm.trans h0)
      have hno : needNextPoint (coordBegin (controllerFront u r.inp r.period)) = false := by
        refine ((hkept 0).1).trans ?_
        rw [hi.unasked hl]
        exact hneed
      obtain ⟨w, hw, -⟩ := coordCycle_axes hst ht
      have hwb := Lib.eq_of_whileFuel_false hno hw
      have hactw : (w.axes i).flag.active = true := by
        rw [hwb]
        exact (controllerFront_active u r.inp r.period i).trans hon
      have hfilled := hlock.filled w hw i hactw
      have hempty : (w.axes i).cubic.filled = false := by
        rw [hwb]
        refine ((hkept i).2.1).trans ?_
        rw [hi.others i hi0]
        exact (h.idle i hoff).2
      exact Bool.false_ne_true (hempty.symm.trans hfilled)

/-- The cycle of a round leaves coordinated mode in force. -/
theorem emcmotController_coordFlag {u t : Machine K} {inp : Inputs} {period : Int} {fuel : Nat}
    (hst : (controllerFront u inp period).status.motionState = .coord)
    (h : emcmotController u inp period fuel = some t) : t.status.motionFlag.coord = true := by
  have hmodes := (emcmotController_modes h).1
  have hflag : t.status.motionFlag.coord = (controllerFront u inp period).modes.coord := congrArg Modes.coord hmodes
  obtain ⟨-, -, hcoord⟩ := (coordCycle_iff u inp period).1 hst
  rw [hflag, controllerFront_modes]
  show (u.status.motionFlag.coord || (u.internal.coordinating && u.status.motionFlag.inpos)) = true
  rcases hcoord with hc | ⟨hc, hin⟩
  · rw [hc]
    rfl
  · rw [hc, hin, Bool.and_true, Bool.or_true]

/-- The invariant of the rounds: the axes are in step, and in the middle of a segment in coordinated mode. -/
structure Machine.InRound (s : Machine K) : Prop extends s.InStep where
  coord : needNextPoint s = false → s.status.motionFlag.coord = true

theorem LockRound.inRound {r : LockRound K} {s u t : Machine K} (h : s.InRound) (hrun : r.run s = some (u, t))
    (hr : r.Harmless s) : t.InRound ∧ InLockstep r.inp r.period r.fuel u t := by
  obtain ⟨hcmd, hst, ht⟩ := LockRound.run_eq_some.1 hrun
  have hu := (handleAll_interval r.codes hcmd).inStep h.toInStep hr
  obtain ⟨hin, hlock⟩ := emcmotController_inStep hu hst ht
  exact ⟨⟨hin, fun _ => emcmotController_coordFlag hst ht⟩, hlock⟩

/-- A round keeps the axes in lockstep exactly when its commands are harmless. -/
theorem LockRound.lockstep_iff {r : LockRound K} {s u t : Machine K} (h : s.InRound) (hrun : r.run s = some (u, t)) :
    InLockstep r.inp r.period r.fuel u t ↔ r.Harmless s := by
  obtain ⟨hcmd, hst, ht⟩ := LockRound.run_eq_some.1 hrun
  exact ⟨(handleAll_interval r.codes hcmd).harmless h.toInStep h.coord hst ht, fun hr => (r.inRound h hrun hr).2⟩

/-- The interpolators have been drained, and are set for segments of the time `T` with `n` steps each. -/
structure Machine.DrainedAt (T : K) (n : Int) (s : Machine K) : Prop where
  drained : ∀ i, (s.axes i).cubic.Drained
  settings : ∀ i, (s.axes i).cubic.settings = ⟨true, true, T, n, T / (n : K)⟩

theorem Machine.DrainedAt.inRound {T : K} {n : Int} {s : Machine K} (h : s.DrainedAt T n) : s.InRound := by
  have hneed : ∀ i, (s.axes i).cubic.needNextPoint = true := fun i => by rw [← h.drained i]; rfl
  have hempty : ∀ i, (s.axes i).cubic.filled = false := fun i => by rw [← h.drained i]; rfl
  refine ⟨⟨fun i => by rw [h.settings, h.settings], ?_, fun i _ => ⟨hneed i, hempty i⟩, .inl fun i _ => hneed i⟩, ?_⟩
  · have hs := h.settings 0
    simp only [Cubic.settings, CubicSettings.mk.injEq] at hs
    rw [Cubic.allSet, hs.1, hs.2.1]
    rfl
  · intro hno
    exact absurd (hno.symm.trans (hneed 0)) Bool.false_ne_true

/-! ### A run at two steps for each segment -/

/-- A drained interpolator for segments of two seconds, with two steps each. -/
noncomputable def rateTwoCubic : Cubic ℝ :=
  cubicDrain { (Cubic.zero : Cubic ℝ) with
    segmentTimeSet := true, interpolationRateSet := true, segmentTime := 2, interpolationRate := 2
    interpolationIncrement := 2 / ((2 : Int) : ℝ) }

/-- A machine in coordinated mode with such interpolators, of which axis 0 is active. -/
noncomputable def rateTwoMachine : Machine ℝ :=
  let s : Machine ℝ := initBuffers 3
  { s with
    status := { s.status with motionState := .coord, motionFlag := ⟨true, true, false, true, false⟩ }
    internal := { s.internal with enabling := true, coordinating := true }
    axes := fun i => { (initAxis : Axis ℝ) with
      cubic := rateTwoCubic, flag := { (initAxis : Axis ℝ).flag with active := decide (i = 0) } }
    lastPeriod := motionThreadPeriod }

theorem rateTwoMachine_drainedAt : rateTwoMachine.DrainedAt 2 2 := ⟨fun _ => rfl, fun _ => rfl⟩

/-- The feedback that is at the command of every axis. -/
def followInputs (s : Machine ℝ) : Inputs where
  axis := fun i => ⟨(s.axes i).posCmd + (s.axes i).motorOffset, false, false, false, false⟩
  jogStop := false
  jogStopImmediate := false
  miscError := fun _ => false

/-- A machine whose next cycle is a coordinated one and completes. -/
structure Machine.CoordReady (s : Machine ℝ) : Prop where
  enabling : s.internal.enabling = true
  coord : s.status.motionFlag.coord = true
  halEnable : s.hal.enable = true
  numMiscError : s.config.numMiscError = 0
  noOverride : s.NoOverride
  minFerror : ∀ i, 0 ≤ (s.axes i).minFerror
  active : (s.axes 0).flag.active = true
  configured : s.Configured

theorem Machine.CoordReady.not_faultSeen {s : Machine ℝ} (h : s.CoordReady) : ¬ FaultSeen s (followInputs s) := by
  rintro (⟨-, hoff | ⟨⟨n, hn⟩, -⟩⟩ | ⟨i, -, hmask | hamp | hferror⟩)
  · exact Bool.false_ne_true (hoff.symm.trans h.halEnable)
  · rw [h.numMiscError] at hn
    exact Nat.not_lt_zero n hn
  · have hzero : s.status.overrideLimitMask = 0 := h.noOverride
    simp [Status.posLimitOverride, Status.negLimitOverride, hzero] at hmask
  · cases hamp
  · have hlimit : 0 ≤ (s.axes i).computeFerrorLimit := by
      have hmin := h.minFerror i
      unfold Axis.computeFerrorLimit
      dsimp only
      generalize (if 0 < (s.axes i).velLimit then _ else _ : Int) = limit
      split <;> omega
    simp [FollowingErrorFound, Axis.feedback, followInputs] at hferror
    omega

theorem Machine.CoordReady.cycle {s : Machine ℝ} (h : s.CoordReady) : ∃ fuel t,
    emcmotController s (followInputs s) motionThreadPeriod fuel = some t ∧
      (controllerFront s (followInputs s) motionThreadPeriod).status.motionState = .coord ∧ t.CoordReady := by
  have hc : CoordCycle s (followInputs s) := ⟨h.enabling, h.not_faultSeen, .inl h.coord⟩
  have hst := (coordCycle_iff s (followInputs s) motionThreadPeriod).2 hc
  obtain ⟨fuel, t, ht⟩ := (emcmotController_completes_iff s (followInputs s) motionThreadPeriod).2 fun _ =>
    (coordCycle_exits_iff hc).2 (.inl ⟨h.active, updatePeriod_configured h.configured _ 0⟩)
  have hkeeps := emcmotController_cycleKeeps ht
  refine ⟨fuel, t, ht, hst, ⟨?_, emcmotController_coordFlag hst ht, hkeeps.halEnable.trans h.halEnable,
    hkeeps.numMiscError.trans h.numMiscError, emcmotController_noOverride h.noOverride ht, ?_,
    (hkeeps.axis 0).active.trans h.active, emcmotController_configured h.configured ht⟩⟩
  · have hmodes := congrArg Modes.enabling (emcmotController_modes ht).1
    have hf : faultFound (sampled s (followInputs s) motionThreadPeriod) = false :=
      Bool.eq_false_iff.2 fun hf => hc.2.1 ((faultFound_sampled _ _ _).1 hf)
    rw [controllerFront_modes, hf, h.enabling] at hmodes
    exact hmodes
  · intro i
    rw [(hkeeps.axis i).minFerror]
    exact h.minFerror i

/-- A round without commands. -/
def quietRound (inp : Inputs) (fuel : Nat) : LockRound ℝ :=
  ⟨[], fun _ h => absurd h List.not_mem_nil, inp, motionThreadPeriod, fuel⟩

theorem quietRound_harmless (inp : Inputs) (fuel : Nat) (s : Machine ℝ) : (quietRound inp fuel).Harmless s :=
  .inr (.inl ⟨id, id⟩)

theorem Machine.CoordReady.quietRound {s : Machine ℝ} (h : s.CoordReady) : ∃ inp fuel t,
    (quietRound inp fuel).run s = some (s, t) ∧ t.CoordReady := by
  obtain ⟨fuel, t, ht, hst, hready⟩ := h.cycle
  exact ⟨followInputs s, fuel, t, LockRound.run_eq_some.2 ⟨rfl, hst, ht⟩, hready⟩

/-- The command that enables axis 1. -/
def enableCommand (s : Machine ℝ) : Command ℝ :=
  { s.command with command := .axisEnable, axis := 1, commandNum := s.status.commandNumEcho + 1 }

theorem enableCommand_new (s : Machine ℝ) : (enableCommand s).commandNum ≠ s.status.commandNumEcho := by
  show s.status.commandNumEcho + 1 ≠ s.status.commandNumEcho
  omega

/-- A round in which axis 1 is enabled. -/
def enableRound (s : Machine ℝ) (inp : Inputs) (fuel : Nat) : LockRound ℝ where
  commands := [(enableCommand s, false)]
  codes c hc := by
    obtain rfl := List.mem_singleton.1 hc
    exact .inr rfl
  inp := inp
  period := motionThreadPeriod
  fuel := fuel

theorem Machine.CoordReady.enableRound {s : Machine ℝ} (h : s.CoordReady) : ∃ inp fuel u t,
    (enableRound s inp fuel).run s = some (u, t) ∧ t.CoordReady ∧ (u.axes 1).flag.active = true := by
  obtain ⟨u, hu, huready, hjoined⟩ : ∃ u, emcmotCommandHandler { s with command := enableCommand s } false = some u ∧
      u.CoordReady ∧ (u.axes 1).flag.active = true := by
    refine ⟨_, (if_pos (enableCommand_new s)).trans (congrArg (fun b => if !b then _ else _) h.halEnable), ?_, rfl⟩
    refine ⟨h.enabling, h.coord, h.halEnable, h.numMiscError, h.noOverride, ?_, h.active, ?_⟩
    · intro i
      show 0 ≤ (if i = 1 then (s.axes i).setActive true else s.axes i).minFerror
      split <;> exact h.minFerror i
    · intro i
      show (if i = 1 then (s.axes i).setActive true else s.axes i).cubic.allSet = true
      split <;> exact h.configured i
  obtain ⟨fuel, t, ht, hst, hready⟩ := huready.cycle
  have hall : Machine.handleAll [(enableCommand s, false)] s = some u := by
    show (emcmotCommandHandler { s with command := enableCommand s } false).bind _ = _
    rw [hu]
    rfl
  exact ⟨followInputs u, fuel, u, t, LockRound.run_eq_some.2 ⟨hall, hst, ht⟩, hready, hjoined⟩

theorem rateTwoMachine_coordReady : rateTwoMachine.CoordReady where
  enabling := rfl
  coord := rfl
  halEnable := rfl
  numMiscError := rfl
  noOverride := rfl
  minFerror _ := show (0 : Int) ≤ 400 by decide
  active := rfl
  configured _ := rfl

/-- After one cycle, axis 0 of this machine is in the middle of a segment. -/
theorem rateTwoMachine_cycle {inp : Inputs} {fuel : Nat} {t : Machine ℝ}
    (hst : (controllerFront rateTwoMachine inp motionThreadPeriod).status.motionState = .coord)
    (h : emcmotController rateTwoMachine inp motionThreadPeriod fuel = some t) : needNextPoint t = false := by
  obtain ⟨hen, hfault, -⟩ := (coordCycle_iff _ _ _).1 hst
  have hf : faultFound (sampled rateTwoMachine inp motionThreadPeriod) = false :=
    Bool.eq_false_iff.2 fun h => hfault ((faultFound_sampled _ _ _).1 h)
  have hfront : ((controllerFront rateTwoMachine inp motionThreadPeriod).axes 0).cubic = rateTwoCubic := by
    rw [controllerFront_cubic hen hf]
    unfold updatePeriod
    rfl
  obtain ⟨w, hw, ht⟩ := coordCycle_axes hst h
  have hneed : needNextPoint (coordBegin (controllerFront rateTwoMachine inp motionThreadPeriod)) = true :=
    congrArg Cubic.needNextPoint hfront
  -- one point is taken, and after one increment half of its segment is still to go
  rcases coordLoop_result hw with ⟨hno, -⟩ | ⟨-, htakes, rfl⟩
  · exact absurd (hno.symm.trans hneed) Bool.false_ne_true
  · have hact : ((coordFeed inp (coordBegin (controllerFront rateTwoMachine inp motionThreadPeriod))).axes
        0).flag.active = true := by
      rw [coordFeed_flag]
      exact htakes.1
    have hfeed : ∀ point : Int,
        (feedAxis ((controllerFront rateTwoMachine inp motionThreadPeriod).axes 0) point).cubic =
          cubicAddPoint rateTwoCubic (point : ℝ) := by
      intro point
      rw [feedAxis_cubic, hfront]
      exact if_pos htakes.1
    obtain ⟨point, hpoint⟩ : ∃ point, ((coordFeed inp
        (coordBegin (controllerFront rateTwoMachine inp motionThreadPeriod))).axes 0).cubic =
          cubicAddPoint rateTwoCubic point := ⟨_, hfeed _⟩
    obtain ⟨h1, -, h3, h4⟩ := @cubicAddPoint_taken _ _ rateTwoCubic rfl point
    have hset : (cubicAddPoint rateTwoCubic point).allSet = true := (allSet_of_settings h4).trans rfl
    simp only [Cubic.settings, CubicSettings.mk.injEq] at h4
    have hcubic : (t.axes 0).cubic = (cubicInterpolate (cubicAddPoint rateTwoCubic point)).1 := by
      rw [(ht 0).2, interpolateAxis, hact, hpoint]
      rfl
    show (t.axes 0).cubic.needNextPoint = false
    rw [hcubic, (cubicInterpolate_inside hset h1).1, h3, h4.2.2.1, h4.2.2.2.2, decide_eq_false_iff_not, fabs_real]
    show ¬ |(2 : ℝ) - (0 + 2 / ((2 : Int) : ℝ))| < 0.5 * (2 / ((2 : Int) : ℝ))
    norm_num

/-! ### Lockstep -/

/-- In every run in coordinated mode from drained interpolators, at any interpolation rate, the axes are in lockstep in
each cycle exactly when the commands before each cycle are harmless. -/
theorem axesInLockstep_iff {T : K} {n : Int} {s : Machine K} (hs : s.DrainedAt T n) (rounds : List (LockRound K)) :
    Lib.AllCalls LockRound.run (fun _ r u t => InLockstep r.inp r.period r.fuel u t) rounds s ↔
      Lib.AllCalls LockRound.run (fun s r _ _ => r.Harmless s) rounds s := by
  refine Lib.AllCalls.iff (I := Machine.InRound) ?_ ?_ hs.inRound
  · intro s r u t h hrun
    exact LockRound.lockstep_iff h hrun
  · intro s r u t h hrun hlock
    exact (r.inRound h hrun ((LockRound.lockstep_iff h hrun).1 hlock)).1

/-- Axis 1 is enabled before the first segment, and is in step with axis 0 there and in the middle of the segment. -/
theorem axesInLockstep_iff_joined : ∃ (r r' : LockRound ℝ) (u t v : Machine ℝ), r.run rateTwoMachine = some (u, t) ∧
    r'.run t = some (t, v) ∧ (u.axes 1).flag.active = true ∧ InLockstep r.inp r.period r.fuel u t ∧
      InLockstep r'.inp r'.period r'.fuel t v := by
  obtain ⟨inp, fuel, u, t, hrun, hready, hjoined⟩ := rateTwoMachine_coordReady.enableRound
  obtain ⟨inp', fuel', v, hrun', -⟩ := hready.quietRound
  let rounds := [enableRound rateTwoMachine inp fuel, quietRound inp' fuel']
  have hlock := (axesInLockstep_iff rateTwoMachine_drainedAt rounds).2 fun _ _ _ =>
    ⟨.inl rfl, fun _ _ _ => ⟨quietRound_harmless inp' fuel' _, trivial⟩⟩
  obtain ⟨hfirst, hrest⟩ := hlock _ _ hrun
  exact ⟨_, _, u, t, v, hrun, hrun', hjoined, hfirst, (hrest _ _ hrun').1⟩

/-- Axis 1 is enabled in the middle of a segment. -/
theorem axesNotInLockstep : ∃ (s : Machine ℝ) (rounds : List (LockRound ℝ)), s.DrainedAt 2 2 ∧
    ¬ Lib.AllCalls LockRound.run (fun _ r u t => InLockstep r.inp r.period r.fuel u t) rounds s := by
  obtain ⟨inp, fuel, t, hfirst, hready⟩ := rateTwoMachine_coordReady.quietRound
  obtain ⟨hcmd, hst, ht⟩ := LockRound.run_eq_some.1 hfirst
  have hmid := rateTwoMachine_cycle hst ht
  obtain ⟨inp', fuel', u, v, hsecond, -, -⟩ := hready.enableRound
  refine ⟨rateTwoMachine, [quietRound inp fuel, enableRound t inp' fuel'], rateTwoMachine_drainedAt, fun hlock => ?_⟩
  obtain ⟨-, hrest⟩ := hlock _ _ hfirst
  obtain ⟨hbroken, -⟩ := hrest _ _ hsecond
  have hin := (LockRound.inRound rateTwoMachine_drainedAt.inRound hfirst (quietRound_harmless inp fuel _)).1
  rcases (LockRound.lockstep_iff hin hsecond).1 hbroken with hask | ⟨-, hjoin⟩ | ⟨hline, -⟩
  · exact Bool.false_ne_true (hmid.symm.trans hask)
  · have hoff : (t.axes 1).flag.active = false := (emcmotController_cycleKeeps ht).axis 1 |>.active
    exact hjoin (.inl ⟨enableCommand_new t, rfl, hready.halEnable, 1, rfl, hoff⟩)
  · rcases hline with ⟨-, hcode, -⟩ | ⟨_, -, hnone⟩
    · cases hcode
    · cases hnone

end SoemMotion
