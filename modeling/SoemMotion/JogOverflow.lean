import SoemMotion.FrameEncode
import SoemMotion.JogContainment

/-!
# Jogs in 32 bits

The `int32_t` results of the jog handler and of `simple_tp_update`.  While the planner can stop within a window of less
than 2^31 counts they all fit, but for twice the acceleration of the frame and the magnitude of its velocity.
-/

namespace SoemMotion

open Lib

/-! ### The results -/

section Results

variable {K : Type} [Arith K]

/-- The target of a jog. -/
def jogTarget (axis : Axis K) (cmd : Command K) : Int :=
  match cmd.command with
  | .jogIncr => jogIncrTarget axis cmd
  | .jogAbs => jogAbsTarget axis cmd
  | _ => if 0 < cmd.maxvel then axis.maxJogLimit else axis.minJogLimit

end Results

/-! ### Planners -/

/-- Twice the acceleration fits, or is not computed: the target is so near that the planner stays where it is. -/
def SimpleTp.Doubles (tp : SimpleTp) : Prop :=
  2 * tp.acc < 2 ^ 31 ∨ tp.acc < 2 ^ 31 ∧ (tp.enable = true → |1000 * (tp.posCmd - tp.currPos)| ≤ tp.acc)

/-- A planner that can stop in the window. -/
structure SimpleTp.Narrow (m M : Int) (tp : SimpleTp) : Prop where
  safe : tp.Safe m M
  doubles : tp.Doubles
  vel : tp.vel < 2 ^ 31

section Planner

variable {m M : Int} {tp : SimpleTp}

/-- A target within the tiny range of the planner. -/
theorem near_iff : |1000 * (tp.posCmd - tp.currPos)| ≤ tp.acc ↔ ¬ (tp.acc : ℝ) * 0.001 <
    ((tp.posCmd - tp.currPos : Int) : ℝ) ∧
    ¬ ((tp.posCmd - tp.currPos : Int) : ℝ) < -((tp.acc : ℝ) * 0.001) := by
  rw [abs_le, not_lt, not_lt]
  constructor
  · rintro ⟨hlow, hup⟩
    have hlow' : -(tp.acc : ℝ) ≤ 1000 * ((tp.posCmd - tp.currPos : Int) : ℝ) := by exact_mod_cast hlow
    have hup' : 1000 * ((tp.posCmd - tp.currPos : Int) : ℝ) ≤ (tp.acc : ℝ) := by exact_mod_cast hup
    constructor <;> linarith
  · rintro ⟨hup, hlow⟩
    have hlow' : -(tp.acc : ℝ) ≤ 1000 * ((tp.posCmd - tp.currPos : Int) : ℝ) := by linarith
    have hup' : 1000 * ((tp.posCmd - tp.currPos : Int) : ℝ) ≤ (tp.acc : ℝ) := by linarith
    exact ⟨by exact_mod_cast hlow', by exact_mod_cast hup'⟩

/-- A planner near its target is not enabled for longer than a period. -/
theorem request_near (h : tp.enable = true → |1000 * (tp.posCmd - tp.currPos)| ≤ tp.acc) :
    (tp.request ℝ 1).1.enable = false := by
  rw [request_one]
  cases hen : tp.enable with
  | false => rfl
  | true =>
    obtain ⟨hup, hlow⟩ := near_iff.1 (h hen)
    rw [if_pos rfl, if_neg hup, if_neg hlow]

theorem SimpleTp.Narrow.update (h : tp.Narrow m M) : (simpleTpUpdate ℝ tp 1).Narrow m M := by
  obtain ⟨active, heq⟩ := simpleTpUpdate_one tp
  obtain ⟨hacc, hvel, -⟩ := request_fst tp
  refine ⟨simpleTpUpdate_safe h.safe, ?_, ?_⟩
  · rw [heq]
    unfold SimpleTp.Doubles
    dsimp only
    rw [hacc]
    rcases h.doubles with hsmall | ⟨hacc', hnear⟩
    · exact .inl hsmall
    · refine .inr ⟨hacc', fun hen => ?_⟩
      rw [request_near hnear] at hen
      cases hen
  · rw [heq]
    dsimp only
    rw [hvel]
    exact h.vel

end Planner

/-! ### Jogs -/

/-- What the handler starts a jog with is an `int32_t`. -/
structure WireJog (cmd : Command ℝ) : Prop where
  maxvel : IsInt32 cmd.maxvel
  offset : ∃ n : Int, IsInt32 n ∧ cmd.offset = n

/-- The axis can be stopped in the window under the acceleration of the jog, which is not too large to be doubled, and
the jog has a velocity of the right sign. -/
structure JogNarrow (m M : Int) (s : Machine ℝ) (i : Fin 3) (vel acc : Int) : Prop where
  limits : m ≤ (s.axes i).minJogLimit ∧ (s.axes i).minJogLimit ≤ (s.axes i).maxJogLimit ∧ (s.axes i).maxJogLimit ≤ M
  settings : acc = 0 ∧ (s.axes i).freeTp.currVel = 0 ∨ 0 < acc ∧ 0 ≤ vel
  lower : m ≤ (s.axes i).freeTp.currPos - brake acc (-(s.axes i).freeTp.currVel)
  upper : (s.axes i).freeTp.currPos + brake acc (s.axes i).freeTp.currVel ≤ M
  doubles : 2 * acc < 2 ^ 31 ∨
    acc < 2 ^ 31 ∧ |1000 * (jogTarget (s.axes i) s.command - (s.axes i).freeTp.currPos)| ≤ acc
  magnitude : s.command.command = .jogAbs → s.command.maxvel ≠ -2 ^ 31

section Jogs

variable {s t : Machine ℝ} {j : Bool} {i : Fin 3} {m M vel acc : Int}

theorem jogChecked_eq (h : JogChecked s j i) (f : Fin 3 → Machine ℝ) : jogChecked s j f = some (f i) := by
  obtain ⟨hen, hinh, haxis, hok⟩ := h
  unfold jogChecked
  rw [hen, hinh, haxis]
  show some (if !jointJogOk s i s.command.maxvel then _ else f i) = _
  rw [hok]
  rfl

/-- The handler gives the planner the target of the jog. -/
theorem startsJog_target (hstart : StartsJog s j i vel acc) (h : executeCommand s j = some t) :
    (t.axes i).freeTp.posCmd = jogTarget (s.axes i) s.command := by
  unfold executeCommand at h
  unfold jogTarget
  cases hstart with
  | cont hc hcheck =>
    rw [hc] at h ⊢
    have hjog := (jogChecked_eq hcheck (jogCont s)).symm.trans h
    cases hjog
    show ((s.updateAxis i (jogContAxis · s.command)).axes i).freeTp.posCmd = _
    rw [updateAxis_freeTp, if_pos rfl]
    rfl
  | incr hc hcheck hmin hmax =>
    rw [hc] at h ⊢
    have hjog := (jogChecked_eq hcheck (jogIncr s)).symm.trans h
    rw [← Option.some.inj hjog, jogIncr_accepted hmin hmax]
    show ((s.updateAxis i (jogIncrAxis · s.command)).axes i).freeTp.posCmd = _
    rw [updateAxis_freeTp, if_pos rfl]
    rfl
  | abs hc hcheck =>
    rw [hc] at h ⊢
    have hjog := (jogChecked_eq hcheck (jogAbs s)).symm.trans h
    cases hjog
    show ((s.updateAxis i (jogAbsAxis · s.command)).axes i).freeTp.posCmd = _
    rw [updateAxis_freeTp, if_pos rfl]
    rfl

theorem StartsJog.to_echo (h : StartsJog s j i vel acc) : StartsJog s.echo j i vel acc := by
  cases h with
  | cont hc h => exact .cont hc h
  | incr hc h hmin hmax => exact .incr hc h hmin hmax
  | abs hc h => exact .abs hc h

theorem StartsJog.vel_le (h : StartsJog s j i vel acc) : vel ≤ s.command.maxvel := by
  have hle : jogVel (s.axes i) s.command ≤ s.command.maxvel := by
    unfold jogVel
    split <;> omega
  cases h with
  | cont => exact hle
  | incr => exact hle
  | abs => exact hle

/-- A jog that fits leaves a planner that can stop in the window. -/
theorem JogEffect.narrow {tp : SimpleTp} (h : JogEffect s j i tp) (hs : (s.axes i).freeTp.Narrow m M)
    (hwire : WireJog s.command) (hnarrow : ∀ vel acc, StartsJog s j i vel acc → JogNarrow m M s i vel acc)
    (htarget : ∀ vel acc, StartsJog s j i vel acc → tp.posCmd = jogTarget (s.axes i) s.command) : tp.Narrow m M := by
  cases h with
  | same h =>
    rw [h]
    exact hs
  | stop h =>
    rw [h]
    refine ⟨⟨hs.safe.settings, hs.safe.lower, hs.safe.upper, fun hen => by cases hen⟩, ?_, hs.vel⟩
    rcases hs.doubles with hsmall | ⟨hacc, -⟩
    · exact .inl hsmall
    · exact .inr ⟨hacc, fun hen => by cases hen⟩
  | @jog pos vel acc maxVel maxAcc dir hstart hpos h =>
    obtain ⟨hlimits, hsettings, hlower, hupper, hdoubles, -⟩ := hnarrow vel acc hstart
    have hto := htarget vel acc hstart
    rw [h] at hto ⊢
    have hwithin := hpos hlimits.2.1
    refine ⟨⟨hsettings, hlower, hupper, fun _ => ?_⟩, ?_, ?_⟩
    · dsimp only
      omega
    · rcases hdoubles with hsmall | ⟨hacc, hnear⟩
      · exact .inl hsmall
      · refine .inr ⟨hacc, fun _ => ?_⟩
        rw [← hto] at hnear
        exact hnear
    · have hvel := hstart.vel_le
      have hmax := hwire.maxvel.2
      dsimp only
      omega

theorem Stilled.narrow {tp tp' : SimpleTp} (h : Stilled tp tp') (hs : tp.Narrow m M) : tp'.Narrow m M := by
  refine ⟨h.safe hs.safe, ?_, ?_⟩
  · rcases h with rfl | rfl
    · exact hs.doubles
    · rcases hs.doubles with hsmall | ⟨hacc, -⟩
      · exact .inl hsmall
      · exact .inr ⟨hacc, fun hen => by cases hen⟩
  · rcases h with rfl | rfl
    · exact hs.vel
    · exact hs.vel

end Jogs

/-! ### Runs -/

/-- A step of a jogging run in which every jog started on axis `i` fits. -/
structure NarrowStep (i : Fin 3) (m M : Int) (s : Machine ℝ) (e : Event ℝ) (t : Machine ℝ) : Prop where
  jogging : e.isJogging
  wire : WireJog s.command
  narrow : ∀ j, e = .handle j → s.command.commandNum ≠ s.status.commandNumEcho →
    ∀ vel acc, StartsJog s j i vel acc → JogNarrow m M s i vel acc

/-- A machine that jogs, with the planner of axis `i` able to stop in the window. -/
structure NarrowState (i : Fin 3) (m M : Int) (s : Machine ℝ) : Prop where
  jogging : Jogging i s
  narrow : (s.axes i).freeTp.Narrow m M

/-- What one step keeps. -/
theorem NarrowState.step {i : Fin 3} {m M : Int} {s t : Machine ℝ} {e : Event ℝ} (hs : NarrowState i m M s)
    (h : Step s e t) (he : NarrowStep i m M s e t) : NarrowState i m M t := by
  obtain ⟨ht, heffect⟩ := hs.jogging.step h he.jogging
  refine ⟨ht, ?_⟩
  cases heffect with
  | kept _ _ htp =>
    rw [htp]
    exact hs.narrow
  | @handled j hj hne _ _ htp =>
    subst hj
    refine htp.narrow hs.narrow he.wire (he.narrow j rfl hne) fun vel acc hstart => ?_
    cases h with
    | handle hh =>
      rcases emcmotCommandHandler_cases hh with ⟨-, hx⟩ | ⟨heq, -⟩
      · exact startsJog_target (s := s.echo) hstart.to_echo hx
      · exact absurd heq hne
  | held _ htp => exact htp.narrow hs.narrow
  | @moved maxAcc _ htp =>
    rw [htp]
    exact SimpleTp.Narrow.update ⟨{ hs.narrow.safe with }, hs.narrow.doubles, hs.narrow.vel⟩

/-! ### A jog that is too fast -/

section IncrPublished

variable (vel acc offset dir : Int)

end IncrPublished

end SoemMotion
