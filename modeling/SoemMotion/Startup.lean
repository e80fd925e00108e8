import SoemMotion.AxisCycle
import SoemMotion.FrameEncode
import SoemMotion.JogContainment
import SoemMotion.Mailbox

/-!
# Starting the machine from the network

A run in which every request is executed before the next one arrives, and the machine such a run and one cycle leave in
free mode: axis 0 active and at rest, configured by a frame.
-/

namespace SoemMotion

/-! ### Serving requests -/

/-- A request from the network, executed at the next call of the handler. -/
noncomputable def Machine.serve (s : Machine ℝ) (r : Request) : Option (Machine ℝ) :=
  (publish (some r) s).bind fun t => executeCommand t.echo false

/-- Requests one after the other. -/
noncomputable def Machine.serveAll (s : Machine ℝ) : List Request → Option (Machine ℝ)
  | [] => some s
  | r :: rs => (s.serve r).bind fun t => t.serveAll rs

/-- A frame that arrives when the handler is done is executed at its next call. -/
theorem serve_steps {s t : Machine ℝ} {r : Request} (hidle : ¬ s.Pending) (h : s.serve r = some t) :
    ∃ u, publish (some r) s = some u ∧ u.Pending ∧ emcmotCommandHandler u false = some t ∧ ¬ t.Pending := by
  obtain ⟨u, hu, ht⟩ := Option.bind_eq_some_iff.1 h
  obtain ⟨hnum, hstatus, -, -⟩ := publish_spec hu
  have hpending : u.Pending := by
    have hold : s.command.commandNum = s.status.commandNumEcho := not_not.1 hidle
    show u.command.commandNum ≠ u.status.commandNumEcho
    rw [hnum, hstatus, i32_real]
    omega
  have hhandle : emcmotCommandHandler u false = some t := by
    unfold emcmotCommandHandler
    rw [if_pos (show u.command.commandNum ≠ u.status.commandNumEcho from hpending)]
    exact ht
  refine ⟨u, hu, hpending, hhandle, not_not.2 ?_⟩
  obtain ⟨hcommand, hecho⟩ := emcmotCommandHandler_taken hhandle
  rw [hcommand, hecho]

theorem serve_netReachable {numAxes : Int} {s t : Machine ℝ} {r : Request} (hs : NetReachable numAxes s)
    (hidle : ¬ s.Pending) (hr : r.Encodable) (h : s.serve r = some t) : NetReachable numAxes t ∧ ¬ t.Pending := by
  obtain ⟨u, hu, -, hhandle, hdone⟩ := serve_steps hidle h
  exact ⟨(hs.publish hr hu).tail (e := .handle false) ⟨.handle hhandle, trivial⟩, hdone⟩

theorem serveAll_netReachable {numAxes : Int} {rs : List Request} (hrs : ∀ r ∈ rs, r.Encodable) {s t : Machine ℝ}
    (hs : NetReachable numAxes s) (hidle : ¬ s.Pending) (h : s.serveAll rs = some t) :
    NetReachable numAxes t ∧ ¬ t.Pending := by
  induction rs generalizing s with
  | nil =>
    cases h
    exact ⟨hs, hidle⟩
  | cons r rs ih =>
    obtain ⟨u, hu, ht⟩ := Option.bind_eq_some_iff.1 h
    obtain ⟨hu', hdone⟩ := serve_netReachable hs hidle (hrs r (by simp)) hu
    exact ih (fun r' hr' => hrs r' (List.mem_cons_of_mem r hr')) hu' hdone ht

/-- A cycle after which the machine is as the network can bring it about. -/
theorem cycle_netReachable {numAxes : Int} {s t : Machine ℝ} {inp : Inputs} {fuel : Nat} (hs : NetReachable numAxes s)
    (hidle : ¬ s.Pending) (h : emcmotController s inp motionThreadPeriod fuel = some t) :
    NetReachable numAxes t ∧ ¬ t.Pending := by
  have hkeep := emcmotController_cycleKeeps h
  refine ⟨hs.tail (e := .cycle inp) ⟨.cycle h, trivial⟩, ?_⟩
  unfold Machine.Pending
  rw [hkeep.command, hkeep.commandNumEcho]
  exact hidle

/-! ### Free mode -/

/-- Axis 0 made active and configured with velocity 10, acceleration 100 and limits -5 and 9, and motion enabled. -/
def freeRequests : List Request :=
  [.enable 0 true, .downloadsConfig 0 0 0 10 100 1 9 (-5), .plain .motionEnable 0]

theorem freeRequests_encodable : ∀ r ∈ freeRequests, r.Encodable := by
  intro r hr
  simp only [freeRequests, List.mem_cons, List.not_mem_nil, or_false] at hr
  rcases hr with rfl | rfl | rfl
  · exact ⟨by decide, by decide, fun _ _ h => by cases h⟩
  · exact ⟨by decide, by decide, fun _ _ h => by cases h⟩
  · refine ⟨by decide, by decide, ?_⟩
    intro code axis h
    cases h
    rfl

/-- Inputs at rest, but for the limit switches. -/
def switchInputs (pos neg : Fin 3 → Bool) : Inputs where
  axis := fun i => ⟨0, pos i, neg i, false, false⟩
  jogStop := false
  jogStopImmediate := false
  miscError := fun _ => false

/-- A machine in free mode of which axis 0 alone is active, and is commanded to be near zero. -/
structure FreeReady (s : Machine ℝ) : Prop where
  settled : s.Settled
  enable : s.status.motionFlag.enable = true
  active : ∀ i, (s.axes i).flag.active = decide (i = 0)
  near : |(s.axes 0).posCmd| ≤ 400
  feedback : (s.axes 0).motorOffset = 0 ∧ (s.axes 0).minFerror = 400
  noFault : s.hal.enable = true ∧ s.config.numMiscError = 0

/-- A planner that is off and at rest. -/
structure SimpleTp.AtRest (tp : SimpleTp) : Prop where
  enable : tp.enable = false
  vel : tp.vel = 0
  acc : tp.acc = 0
  posCmd : tp.posCmd = 0
  currPos : tp.currPos = 0
  currVel : tp.currVel = 0

/-- Such a machine with the configuration of `freeRequests`, at rest at zero. -/
structure FreeStart (s : Machine ℝ) : Prop extends FreeReady s where
  posCmd : (s.axes 0).posCmd = 0
  command : s.command.maxvel = 10 ∧ s.command.maxacc = 100 ∧ s.command.maxLimit = 9 ∧ s.command.minLimit = -5
  jogLimits : (s.axes 0).maxJogLimit = 9 ∧ (s.axes 0).minJogLimit = -5
  rest : (s.axes 0).freeTp.AtRest

/-- A planner that is off stops, if one acceleration step is enough. -/
theorem simpleTpUpdate_stops {tp : SimpleTp} (hen : tp.enable = false) (hvel : 0 ≤ tp.vel)
    (hacc : |tp.currVel| ≤ tp.acc) :
    simpleTpUpdate ℝ tp 1 = { tp with active := false, posCmd := tp.currPos, currVel := 0 } := by
  obtain ⟨hlow, hup⟩ := abs_le.1 hacc
  have hvel' : (0 : ℝ) ≤ (tp.vel : ℝ) := by exact_mod_cast hvel
  have hlow' : -(tp.acc : ℝ) ≤ (tp.currVel : ℝ) := by exact_mod_cast hlow
  have hup' : (tp.currVel : ℝ) ≤ (tp.acc : ℝ) := by exact_mod_cast hup
  have hlimit : limitVel 0 tp.vel = (0 : ℝ) := by
    unfold limitVel
    rw [i32_real, Int.cast_neg, if_neg (by linarith), if_neg (by linarith)]
  have hdv : tp.maxDv ℝ 1 = (tp.acc : ℝ) := by
    unfold SimpleTp.maxDv
    rw [i32_real, mul_one]
  have hramp : rampVel tp.currVel (0 : ℝ) (tp.acc : ℝ) = 0 := by
    have h0 : truncReal 0 = 0 := by exact_mod_cast truncReal_intCast 0
    unfold rampVel
    rw [if_neg (by linarith), if_neg (by linarith), trunc_real, h0]
  have hreq : tp.request ℝ 1 = ({ tp with active := false, posCmd := tp.currPos }, 0) := by
    rw [request_one, if_neg (by rw [hen]; simp)]
  unfold simpleTpUpdate
  rw [hreq]
  dsimp only
  rw [hlimit, hdv, hramp, i32_real, i32_real, zero_mul, add_zero]
  rfl

/-- A planner that is off and at rest stays so. -/
theorem simpleTpUpdate_rest {tp : SimpleTp} (h : tp.AtRest) :
    (simpleTpUpdate ℝ tp 1).AtRest ∧ (simpleTpUpdate ℝ tp 1).active = false := by
  rw [simpleTpUpdate_stops h.enable h.vel.ge (by rw [h.currVel, h.acc]; decide)]
  exact ⟨⟨h.enable, h.vel, h.acc, h.currPos, h.currPos, rfl⟩, rfl⟩

/-- Before the cycle that enables motion. -/
structure FreeRequested (s : Machine ℝ) : Prop where
  modes : s.modes = { enabling := true, freeing := false, coordinating := false, enable := false, free := false,
                      coord := false, axisEnable := fun _ => true, axisActive := fun i => decide (i = 0) }
  command : s.command.maxvel = 10 ∧ s.command.maxacc = 100 ∧ s.command.maxLimit = 9 ∧ s.command.minLimit = -5
  jogLimits : (s.axes 0).maxJogLimit = 9 ∧ (s.axes 0).minJogLimit = -5
  planner : (s.axes 0).freeTp = SimpleTp.zero
  noFault : s.hal.enable = true ∧ s.config.numMiscError = 0
  axis : ∀ i, (s.axes i).posCmd = 0 ∧ (s.axes i).motorOffset = 0 ∧ (s.axes i).minFerror = 400

theorem freeRequests_run (numAxes : Int) : ∃ s, (initMachine numAxes : Machine ℝ).serveAll freeRequests = some s ∧
    FreeRequested s ∧ s.config.numAxes = numAxes := by
  obtain ⟨_, _, _, _, _, _, _, h⟩ := initMachine_eq (K := ℝ) numAxes
  rw [h]
  refine ⟨_, rfl, ⟨?_, ⟨rfl, rfl, rfl, rfl⟩, ⟨rfl, rfl⟩, rfl, ⟨rfl, rfl⟩, ?_⟩, rfl⟩
  · refine congrArg₂ (Modes.mk true false false false false false) (funext fun i => ?_) (funext fun i => ?_)
    · fin_cases i <;> rfl
    · fin_cases i <;> rfl
  · intro i
    fin_cases i <;> exact ⟨rfl, rfl, rfl⟩

theorem near_of_zero {n : Int} (h : n = 0) : |n| ≤ 400 := by
  rw [h]
  decide

/-- Limit switches alone are no fault while the axes are near where they are commanded to be. -/
theorem switchInputs_noFault {s : Machine ℝ} (hmask : s.NoOverride) (hmachine : ¬ MachineFault s)
    (hpos : ∀ i, (s.axes i).flag.active = true →
      |(s.axes i).posCmd| ≤ 400 ∧ (s.axes i).motorOffset = 0 ∧ (s.axes i).minFerror = 400) (pos neg : Fin 3 → Bool) :
    faultFound (sampled s (switchInputs pos neg) motionThreadPeriod) = false := by
  rw [← Bool.not_eq_true, faultFound_noOverride hmask]
  rintro (h | ⟨i, ⟨hactive, -⟩, h | h⟩)
  · exact hmachine h
  · cases h
  · obtain ⟨hcmd, hoffset, hmin⟩ := hpos i hactive
    have hlimit := le_computeFerrorLimit (s.axes i)
    unfold FollowingErrorFound Axis.feedback at h
    rw [hoffset] at h
    simp only [i32_real, switchInputs, sub_self, sub_zero] at h
    omega

/-- A fault-free cycle with coordinated mode neither in force nor requested. -/
theorem freeCycle_exists {s : Machine ℝ} {inp : Inputs} (hen : s.internal.enabling = true)
    (hcoord : s.status.motionFlag.coord = false) (hreq : s.internal.coordinating = false)
    (hfault : faultFound (sampled s inp motionThreadPeriod) = false) :
    ∃ t, emcmotController s inp motionThreadPeriod 1 = some t ∧ t.status.motionState = .free := by
  have hstate : (controllerFront s inp motionThreadPeriod).status.motionState ≠ .coord := by
    rw [controllerFront_motionState]
    exact Modes.next_state_ne_coord _ hcoord hreq
  obtain ⟨t, ht⟩ := emcmotController_exists hstate 1
  refine ⟨t, ht, ?_⟩
  rw [emcmotController_motionState hen hfault ht, hcoord, hreq]
  rfl

/-- A cycle in free mode leaves an axis at rest there. -/
theorem restCycle_axis {s t : Machine ℝ} {inp : Inputs} {fuel : Nat}
    (ht : emcmotController s inp motionThreadPeriod fuel = some t) (hfree : t.status.motionState = .free) {i : Fin 3}
    (hactive : (s.axes i).flag.active = true) (hrest : (s.axes i).freeTp.AtRest) (hpos : (s.axes i).posCmd = 0) :
    (t.axes i).posCmd = 0 ∧ (t.axes i).freeTp.AtRest ∧ (t.axes i).freeTp.active = false := by
  obtain ⟨pos, haxis⟩ := emcmotController_free ht hfree i
  have hfront := controllerFront_freeTp s inp motionThreadPeriod i
  have hnot : (controllerFront s inp motionThreadPeriod).status.motionState ≠ .disabled := by
    rw [← (emcmotController_modes ht).2, hfree]
    simp
  have hvel := controllerFront_currVel hnot i
  have hfactive := ((controllerFront_cycleKeeps s inp motionThreadPeriod).axis i).active.trans hactive
  rw [controllerFront_servoPeriod] at haxis
  generalize (controllerFront s inp motionThreadPeriod).axes i = axis at hfront hvel hfactive haxis
  generalize (controllerFront s inp motionThreadPeriod).status.maxacc = maxacc at haxis
  obtain ⟨maxAcc, htp, hcmd⟩ := freeAxisCycle_of_active hfactive maxacc 1
  have hfrontRest : axis.freeTp.AtRest := by
    refine ⟨?_, hfront.vel.trans hrest.vel, hfront.acc.trans hrest.acc, hfront.target.trans hrest.posCmd, ?_,
      hvel.trans hrest.currVel⟩
    · by_contra hne
      have hon := hfront.enable (Bool.eq_true_of_not_eq_false hne)
      change (s.axes i).freeTp.enable = true at hon
      rw [hrest.enable] at hon
      cases hon
    -- entering the mode sets the position of the planner, here to the zero it had
    · rcases hfront.currPos with h | h
      · exact h.trans hrest.currPos
      · exact h.trans hpos
  obtain ⟨hupdate, hoff⟩ : (simpleTpUpdate ℝ { axis.freeTp with maxAcc := maxAcc } 1).AtRest ∧
      (simpleTpUpdate ℝ { axis.freeTp with maxAcc := maxAcc } 1).active = false :=
    simpleTpUpdate_rest ⟨hfrontRest.enable, hfrontRest.vel, hfrontRest.acc, hfrontRest.posCmd, hfrontRest.currPos,
      hfrontRest.currVel⟩
  rw [haxis]
  show (freeAxisCycle axis maxacc 1).posCmd = 0 ∧ (freeAxisCycle axis maxacc 1).freeTp.AtRest ∧
    (freeAxisCycle axis maxacc 1).freeTp.active = false
  rw [hcmd, htp]
  exact ⟨hupdate.currPos, hupdate, hoff⟩

/-- Limit switches apart, nothing stops the next cycle. -/
theorem FreeReady.noFault_found {s : Machine ℝ} (hs : FreeReady s) (hmask : s.NoOverride) (pos neg : Fin 3 → Bool) :
    faultFound (sampled s (switchInputs pos neg) motionThreadPeriod) = false := by
  refine switchInputs_noFault hmask ?_ ?_ pos neg
  · rintro ⟨-, h | ⟨n, -⟩⟩
    · rw [hs.noFault.1] at h
      cases h
    · have hlt := n.isLt
      have hnum := hs.noFault.2
      omega
  · intro i hactive
    rw [hs.active i] at hactive
    have hi : i = 0 := of_decide_eq_true hactive
    rw [hi]
    exact ⟨hs.near, hs.feedback⟩

/-- The next cycle runs the planner of axis 0, and the machine is ready again if that leaves it near zero. -/
theorem FreeReady.cycle {s : Machine ℝ} (hs : FreeReady s) (hmask : s.NoOverride) (pos neg : Fin 3 → Bool) :
    ∃ t, emcmotController s (switchInputs pos neg) motionThreadPeriod 1 = some t ∧ t.status.motionState = .free ∧
      t.status.motionFlag.enable = true ∧ (|(t.axes 0).freeTp.currPos| ≤ 400 → FreeReady t) ∧
      ∃ maxAcc, (t.axes 0).freeTp = simpleTpUpdate ℝ { (s.axes 0).freeTp with maxAcc := maxAcc } 1 := by
  have hen : s.internal.enabling = true := hs.settled.enabling.trans hs.enable
  have hfault := hs.noFault_found hmask pos neg
  obtain ⟨t, ht, hfree⟩ := freeCycle_exists hen hs.settled.coord hs.settled.coordinating hfault
  have hkeep := emcmotController_cycleKeeps ht
  have henable : t.status.motionFlag.enable = true := by
    have hmodes := (emcmotController_modes ht).1
    rw [controllerFront_modes, hen, hfault] at hmodes
    exact congrArg Modes.enable hmodes
  rcases emcmotController_settled hs.settled 0 (hs.active 0) ht with ⟨hdisabled, -⟩ | ⟨-, maxAcc, htp, hpos⟩
  · rw [hfree] at hdisabled
    cases hdisabled
  · refine ⟨t, ht, hfree, henable, fun hnear => ?_, maxAcc, htp⟩
    rw [← hpos] at hnear
    exact ⟨emcmotController_keepsSettled hs.settled ht, henable, fun i => (hkeep.axis i).active.trans (hs.active i),
      hnear, ⟨(hkeep.axis 0).motorOffset.trans hs.feedback.1, (hkeep.axis 0).minFerror.trans hs.feedback.2⟩,
      hkeep.halEnable.trans hs.noFault.1, hkeep.numMiscError.trans hs.noFault.2⟩

/-- The next cycle enables motion and leaves the machine at rest in free mode. -/
theorem FreeRequested.cycle {s : Machine ℝ} (hs : FreeRequested s) (hmask : s.NoOverride) (neg : Fin 3 → Bool) :
    ∃ t, emcmotController s (switchInputs (fun _ => false) neg) motionThreadPeriod 1 = some t ∧ FreeStart t ∧
      (t.axes 0).flag.phl = false ∧ (t.axes 0).flag.nhl = neg 0 ∧ t.status.motionState = .free ∧
      (t.axes 0).freeTp.active = false := by
  have hen : s.internal.enabling = true := congrArg Modes.enabling hs.modes
  have henable : s.status.motionFlag.enable = false := congrArg Modes.enable hs.modes
  have hcoord : s.status.motionFlag.coord = false := congrArg Modes.coord hs.modes
  have hreq : s.internal.coordinating = false := congrArg Modes.coordinating hs.modes
  have hactive : (s.axes 0).flag.active = true := congrFun (congrArg Modes.axisActive hs.modes) 0
  have hmachine : ¬ MachineFault s := by
    rintro ⟨h, -⟩
    rw [henable] at h
    cases h
  have hfault := switchInputs_noFault hmask hmachine (fun i _ => ⟨near_of_zero (hs.axis i).1, (hs.axis i).2⟩)
    (fun _ => false) neg
  obtain ⟨t, ht, hfree⟩ := freeCycle_exists hen hcoord hreq hfault
  have hkeep := emcmotController_cycleKeeps ht
  have hnext : t.modes = Modes.next { s.modes with enabling := true } s.status.motionFlag.inpos := by
    rw [(emcmotController_modes ht).1, controllerFront_modes, hen, hfault]
    rfl
  rw [hs.modes] at hnext
  have hrest : (s.axes 0).freeTp.AtRest := by
    rw [hs.planner]
    exact ⟨rfl, rfl, rfl, rfl, rfl, rfl⟩
  obtain ⟨hpos, hrest', hoff⟩ := restCycle_axis ht hfree hactive hrest (hs.axis 0).1
  obtain ⟨hphl, hnhl⟩ := emcmotController_switches ht hactive
  refine ⟨t, ht, ?_, hphl, hnhl, hfree, hoff⟩
  have hkeep0 := hkeep.axis 0
  refine ⟨⟨⟨?_, ?_, ?_, ?_⟩, congrArg Modes.enable hnext, ?_, near_of_zero hpos, ?_, ?_⟩, hpos, ?_, ?_, hrest'⟩
  · exact (congrArg Modes.enabling hnext).trans (congrArg Modes.enable hnext).symm
  · exact congrArg Modes.coordinating hnext
  · exact congrArg Modes.coord hnext
  · intro h
    have hnot : t.internal.freeing = false := congrArg Modes.freeing hnext
    rw [hnot] at h
    cases h
  · intro i
    exact congrFun (congrArg Modes.axisActive hnext) i
  · exact ⟨hkeep0.motorOffset.trans (hs.axis 0).2.1, hkeep0.minFerror.trans (hs.axis 0).2.2⟩
  · exact ⟨hkeep.halEnable.trans hs.noFault.1, hkeep.numMiscError.trans hs.noFault.2⟩
  · rw [hkeep.command]
    exact hs.command
  · rw [hkeep0.maxJogLimit, hkeep0.minJogLimit]
    exact hs.jogLimits

/-- The network brings about a machine in free mode with the given limit switches. -/
theorem freeStart_exists (numAxes : Int) (neg : Fin 3 → Bool) : ∃ s, NetReachable numAxes s ∧ ¬ s.Pending ∧
    FreeStart s ∧ s.config.numAxes = numAxes ∧ (s.axes 0).flag.phl = false ∧ (s.axes 0).flag.nhl = neg 0 ∧
    s.status.motionState = .free ∧ (s.axes 0).freeTp.active = false := by
  -- the requests are served at rest, and one cycle then enters free mode
  obtain ⟨s, hrun, hs, hnum⟩ := freeRequests_run numAxes
  obtain ⟨hnet, hidle⟩ := serveAll_netReachable freeRequests_encodable (Lib.Reaches.refl _)
    (initMachine_idle numAxes) hrun
  obtain ⟨t, ht, hstart, hrest⟩ := hs.cycle hnet.reachable.noOverride neg
  obtain ⟨hnet', hidle'⟩ := cycle_netReachable hnet hidle ht
  exact ⟨t, hnet', hidle', hstart, (emcmotController_cycleKeeps ht).numAxes.trans hnum, hrest⟩

end SoemMotion
