import SoemMotion.HalComponents
import Mathlib.Tactic.Common

/-!
# The names of HAL components

`hal_init` looks for its name among the stored names of the components, but it never stores it:
`halpr_alloc_comp_struct` and `free_comp_struct` leave every stored name empty.  A name is therefore refused only when
it is empty and some component is live, or when no module number or structure is left; any other name can be initialised
while a component of that name is live.
-/

namespace SoemMotion

/-! ### Calls -/

/-- The calls that create and remove components, with the answers of the operating system. -/
inductive HalCall
  | init (rt : RtAnswer) (name : Option CString)
  | createThread (rt : RtAnswer) (name : CString) (period : UInt64)
  | threadDelete (name : CString)
  | exit (compId : Int)

/-- The result of the call, if it returns. -/
def HalCall.run : HalCall → Hal → Option (Int × Hal)
  | .init rt name => halInit rt name
  | .createThread rt name period => halCreateThread rt name period
  | .threadDelete name => halThreadDelete name
  | .exit compId => halExit compId

/-- The name of the component the call asks for. -/
def HalCall.asks : HalCall → Option CString
  | .init _ name => name
  | .createThread _ name _ => some (pseudoName name)
  | _ => none

/-- The live components. -/
def Hal.comps (hal : Hal) : List HalComp := (hal.data.map HalData.compList).getD []

/-- A live component was created under the name. -/
def Hal.Held (hal : Hal) (name : CString) : Prop := ∃ comp ∈ hal.comps, comp.createdAs = name

/-- No two live components were created under the same name. -/
def Hal.NamesUnique (hal : Hal) : Prop := (hal.comps.map HalComp.createdAs).Nodup

/-- What the uniqueness of names asks of a call: a name in use is refused, no two components share a name afterwards,
and the name of a component that has exited can be initialised again. -/
structure HalCall.KeepsNames (hal : Hal) (call : HalCall) (r : Int) (hal' : Hal) : Prop where
  refused : ∀ name, call.asks = some name → hal.Held name → r < 0 ∧ hal'.comps = hal.comps
  unique : hal'.NamesUnique
  again : ∀ compId, call = .exit compId → ∀ comp, hal.comps.find? (fun comp => comp.compId == compId) = some comp →
    ∀ rt, ∃ id hal'', halInit rt (some comp.createdAs) hal' = some (id, hal'') ∧ 0 ≤ id

/-- A module number and a component structure are left. -/
def Hal.HasRoom (hal : Hal) : Prop :=
  0 ≤ (rtapiInit hal).1 ∧ ∃ data, hal.data = some data ∧ (halprAllocCompStruct data).isSome

/-- A `hal_init` of a name in use that the code refuses: the empty name, or one nothing is left for. -/
def Hal.Refusable (hal : Hal) (name : CString) : Prop := hal.Held name → name = [] ∨ ¬ hal.HasRoom

/-- The calls that the uniqueness of names survives. -/
def HalCall.Harmless (hal : Hal) : HalCall → Prop
  | .init _ name => ∀ n, name = some n → hal.Refusable n
  | .createThread rt name period =>
    ∀ hal', startThread rt name period hal = some (.ok (), hal') → hal'.Refusable (pseudoName name)
  | .threadDelete _ => True
  | .exit compId =>
    ∀ comp, hal.comps.find? (fun comp => comp.compId == compId) = some comp →
      0 ≤ (rtapiInit hal).1 ∧ (comp.createdAs = [] → hal.comps = [comp])

/-! ### The block between calls -/

/-- The block between calls: the mutex is free, no component has a stored name, and the names fit. -/
structure HalData.Idle (data : HalData) : Prop where
  mutex : data.mutex = false
  stored : ∀ comp ∈ data.compList, comp.name = []
  fits : ∀ comp ∈ data.compList, comp.createdAs.length ≤ halNameLen

theorem HalData.idle_init : initHalData.Idle where
  mutex := rfl
  stored := by simp [initHalData]
  fits := by simp [initHalData]

/-- The library between calls. -/
def Hal.Idle (hal : Hal) : Prop := ∀ data, hal.data = some data → data.Idle ∧ hal.libMemId ≠ 0

theorem HalData.withMutex_free {α : Type} {f : HalData → Option (α × HalData)} {data : HalData}
    (h : data.mutex = false) :
    data.withMutex f = (f (data.setMutex true)).map fun r => (r.1, r.2.setMutex false) := by
  simp [HalData.withMutex, h]

theorem shmallocDn_frame {size off : Int} {data data' : HalData} (h : shmallocDn size data = some (off, data')) :
    data'.mutex = data.mutex ∧ data'.compList = data.compList := by
  simp only [shmallocDn, Option.ite_none_left_eq_some, Option.some.injEq, Prod.mk.injEq] at h
  obtain ⟨-, -, rfl⟩ := h
  exact ⟨rfl, rfl⟩

/-- A new structure has no name, wherever it comes from. -/
theorem halprAllocCompStruct_spec {data data' : HalData} {comp : HalComp}
    (h : halprAllocCompStruct data = some (comp, data')) :
    comp.name = [] ∧ data'.mutex = data.mutex ∧ data'.compList = data.compList := by
  unfold halprAllocCompStruct at h
  split at h
  · obtain ⟨rfl, rfl⟩ := Prod.mk.inj (Option.some.inj h)
    exact ⟨rfl, rfl, rfl⟩
  · obtain ⟨⟨off, d⟩, hoff, heq⟩ := Option.map_eq_some_iff.1 h
    obtain ⟨rfl, rfl⟩ := Prod.mk.inj heq
    exact ⟨rfl, shmallocDn_frame hoff⟩

/-- The search by name finds a component exactly for the empty name. -/
theorem halprFindCompByName_isSome {data : HalData} (h : ∀ comp ∈ data.compList, comp.name = []) (name : CString) :
    (halprFindCompByName name data).isSome ↔ name = [] ∧ data.compList ≠ [] := by
  rw [halprFindCompByName, List.find?_isSome]
  constructor
  · rintro ⟨comp, hcomp, hname⟩
    rw [h comp hcomp] at hname
    exact ⟨(by simpa using hname), List.ne_nil_of_mem hcomp⟩
  · rintro ⟨rfl, hne⟩
    obtain ⟨comp, hcomp⟩ := List.exists_mem_of_ne_nil _ hne
    exact ⟨comp, hcomp, by simp [h comp hcomp]⟩

/-! ### hal_init -/

theorem shmallocDn_mutex (size : Int) (data : HalData) (b : Bool) :
    shmallocDn size (data.setMutex b) = (shmallocDn size data).map fun r => (r.1, r.2.setMutex b) := by
  by_cases h : alignDown size (data.shmemTop - size) < data.shmemBot
  · simp [shmallocDn, HalData.setMutex, h]
  · simp [shmallocDn, HalData.setMutex, h]

/-- Whether a structure is left does not depend on the mutex. -/
theorem halprAllocCompStruct_mutex (data : HalData) (b : Bool) :
    halprAllocCompStruct (data.setMutex b) =
      (halprAllocCompStruct data).map fun r => (r.1, r.2.setMutex b) := by
  rcases data with ⟨_, _, _, _, _ | ⟨p, rest⟩, _⟩
  · simp only [halprAllocCompStruct]
    rw [shmallocDn_mutex 104 ⟨_, _, _, _, [], _, _, _, _, _⟩ b, Option.map_map, Option.map_map]
    rfl
  · rfl

theorem snprintf_fits {name : CString} (h : name.length ≤ halNameLen) : snprintf (halNameLen + 1) name = name := by
  rw [snprintf, List.take_of_length_le (by simpa using h)]

/-- A structure is left, and the name is not taken for that of a live component. -/
def HalData.Accepts (data : HalData) (name : CString) : Prop :=
  (halprAllocCompStruct data).isSome ∧ (name = [] → data.compList = [])

/-- The part of `hal_init` under the mutex makes the component exactly if the search finds nothing and a structure is
left. -/
theorem HalData.insertComp_spec {data : HalData} (hidle : data.Idle) (compId : Int) {name : CString}
    (hname : name.length ≤ halNameLen) :
    ∃ r data', (data.withMutex fun data => some (data.insertComp compId name)) = some (r, data') ∧ data'.Idle ∧
      ((r < 0 ∧ ¬ data.Accepts name ∧ data'.compList = data.compList) ∨
        (r = compId ∧ data.Accepts name ∧ ∃ comp, comp.createdAs = name ∧ data'.compList = comp :: data.compList)) := by
  have hfind := @halprFindCompByName_isSome (data.setMutex true) hidle.stored name
  have halloc := halprAllocCompStruct_mutex data true
  have hrun : (data.withMutex fun data => some (data.insertComp compId name)) =
      some (((data.setMutex true).insertComp compId name).1,
        ((data.setMutex true).insertComp compId name).2.setMutex false) := by
    rw [HalData.withMutex_free hidle.mutex, Option.map_some]
  by_cases hsome : (halprFindCompByName name (data.setMutex true)).isSome
  · have hins : (data.setMutex true).insertComp compId name = (-einval, (data.setMutex true)) := by
      rw [HalData.insertComp, if_pos hsome]
    rw [hins] at hrun
    refine ⟨_, _, hrun, ⟨rfl, hidle.stored, hidle.fits⟩, Or.inl ⟨einval_neg, ?_, rfl⟩⟩
    rintro ⟨-, hnil⟩
    exact (hfind.1 hsome).2 (hnil (hfind.1 hsome).1)
  -- no component has the name, so only the memory can be wanting
  rcases hnew : halprAllocCompStruct data with _ | ⟨comp, data'⟩
  · have hins : (data.setMutex true).insertComp compId name = (-enomem, (data.setMutex true)) := by
      rw [HalData.insertComp, if_neg hsome, halloc, hnew]
      rfl
    rw [hins] at hrun
    refine ⟨_, _, hrun, ⟨rfl, hidle.stored, hidle.fits⟩, Or.inl ⟨enomem_neg, ?_, rfl⟩⟩
    rintro ⟨hleft, -⟩
    simp [hnew] at hleft
  · obtain ⟨hempty, hmutex, hlist⟩ := halprAllocCompStruct_spec hnew
    have hins : (data.setMutex true).insertComp compId name =
        (compId, { data'.setMutex true with
          compList := { comp with compId := compId, ready := false, createdAs := name } :: data'.compList }) := by
      rw [HalData.insertComp, if_neg hsome, halloc, hnew]
      rfl
    rw [hins] at hrun
    refine ⟨_, _, hrun, ⟨rfl, ?_, ?_⟩, Or.inr ⟨rfl, ⟨by simp [hnew], ?_⟩,
      { comp with compId := compId, ready := false, createdAs := name }, rfl, by simp [hlist]⟩⟩
    · intro c hc
      rcases List.mem_cons.1 hc with rfl | hc
      · exact hempty
      · exact hidle.stored c (hlist ▸ hc)
    · intro c hc
      rcases List.mem_cons.1 hc with rfl | hc
      · exact hname
      · exact hidle.fits c (hlist ▸ hc)
    · intro hnil
      by_contra hne
      exact hsome (hfind.2 ⟨hnil, hne⟩)

/-- The library has a module number left and accepts the name. -/
def Hal.Accepts (hal : Hal) (name : CString) : Prop :=
  0 ≤ (rtapiInit hal).1 ∧ ∃ data, hal.data = some data ∧ data.Accepts name

theorem Hal.accepts_iff (hal : Hal) (name : CString) :
    hal.Accepts name ↔ hal.HasRoom ∧ (name = [] → hal.comps = []) := by
  rcases hdata : hal.data with _ | data
  · simp [Hal.Accepts, Hal.HasRoom, hdata]
  · simp [Hal.Accepts, Hal.HasRoom, Hal.comps, HalData.Accepts, hdata, and_assoc]

/-- What a call of `hal_init` has done: refused the name and left the list, or put a component of that name on it. -/
def Hal.Inited (hal : Hal) (name : CString) (r : Int) (hal' : Hal) : Prop :=
  (r < 0 ∧ hal'.comps = hal.comps) ∨ 0 ≤ r ∧ ∃ comp, comp.createdAs = name ∧ hal'.comps = comp :: hal.comps

theorem Hal.attach_mapped {rt : RtAnswer} {hal : Hal} (h : hal.libMemId ≠ 0) : hal.attach rt = (0, hal) := by
  simp [Hal.attach, h]

/-- `hal_init` once the library has been set up. -/
theorem halInit_mapped {rt : RtAnswer} {name : CString} {hal : Hal} (hlib : hal.libMemId ≠ 0)
    (hname : name.length ≤ halNameLen) :
    halInit rt (some name) hal =
      if (rtapiInit hal).1 < 0 then some (-einval, (rtapiInit hal).2)
      else hal.data.bind fun data =>
        (data.withMutex fun data => some (data.insertComp (rtapiInit hal).1 name)).map fun r =>
          (r.1, { (rtapiInit hal).2 with data := some r.2 }) := by
  have hnot : ¬ halNameLen < name.length := by omega
  simp only [halInit, hnot, if_false, Hal.attach_mapped hlib, Int.lt_irrefl, snprintf_fits hname]
  rfl

/-- In a library whose block is mapped and at rest `hal_init` returns, with the component exactly if the name is
accepted. -/
theorem halInit_data {rt : RtAnswer} {name : CString} {hal : Hal} {data : HalData} (hdata : hal.data = some data)
    (hidle : data.Idle) (hlib : hal.libMemId ≠ 0) (hname : name.length ≤ halNameLen) :
    ∃ r hal', halInit rt (some name) hal = some (r, hal') ∧ hal'.Idle ∧ hal.Inited name r hal' ∧
      (0 ≤ r ↔ hal.Accepts name) := by
  have hcomps : hal.comps = data.compList := by simp [Hal.comps, hdata]
  obtain ⟨compId, hid⟩ : ∃ compId, (rtapiInit hal).1 = compId := ⟨_, rfl⟩
  have hrun := @halInit_mapped rt name hal hlib hname
  rw [hid, hdata, Option.bind_some] at hrun
  have haccepts : hal.Accepts name ↔ 0 ≤ compId ∧ data.Accepts name := by
    simp [Hal.Accepts, hdata, hid]
  by_cases hneg : compId < 0
  · refine ⟨-einval, (rtapiInit hal).2, by rw [hrun, if_pos hneg], ?_, Or.inl ⟨by decide, rfl⟩, ?_⟩
    · intro data' hdata'
      obtain rfl : data = data' := Option.some.inj (hdata.symm.trans hdata')
      exact ⟨hidle, hlib⟩
    · refine iff_of_false (by decide) fun h => ?_
      have hpos := (haccepts.1 h).1
      omega
  · obtain ⟨r, data', hins, hidle', hwhat⟩ := HalData.insertComp_spec hidle compId hname
    rw [if_neg hneg, hins] at hrun
    refine ⟨r, _, hrun, ?_, ?_, ?_⟩
    · intro d hd
      obtain rfl := Option.some.inj hd
      exact ⟨hidle', hlib⟩
    · rcases hwhat with ⟨hr, -, hlist⟩ | ⟨rfl, -, comp, hcomp, hlist⟩
      · exact Or.inl ⟨hr, by simpa [Hal.comps, hdata] using hlist⟩
      · exact Or.inr ⟨by omega, comp, hcomp, by simpa [Hal.comps, hdata] using hlist⟩
    · rw [haccepts]
      rcases hwhat with ⟨hr, hno, -⟩ | ⟨rfl, hyes, -⟩
      · exact iff_of_false (by omega) fun h => hno h.2
      · exact iff_of_true (by omega) ⟨by omega, hyes⟩

/-- The first call maps an empty block and goes on from there. -/
theorem halInit_attach {rt : RtAnswer} {name : CString} {hal : Hal} (hlib : hal.libMemId = 0)
    (hname : name.length ≤ halNameLen) :
    ((hal.attach rt).1 < 0 ∧ (hal.attach rt).2.data = hal.data ∧
      halInit rt (some name) hal = some ((hal.attach rt).1, (hal.attach rt).2)) ∨
    ((hal.attach rt).2.data = some initHalData ∧ (hal.attach rt).2.libMemId ≠ 0 ∧
      halInit rt (some name) hal = halInit rt (some name) (hal.attach rt).2) := by
  have hnot : ¬ halNameLen < name.length := by omega
  have heq : hal.attach rt = if (rtapiInit hal).1 < 0 then (-einval, (rtapiInit hal).2)
      else if rt.shmemNew < 0 then (-einval, { (rtapiInit hal).2 with libMemId := rt.shmemNew })
      else (0, { (rtapiInit hal).2 with libMemId := rt.shmemNew, data := some initHalData }) := by
    simp [Hal.attach, hlib]
  have hfail : (hal.attach rt).1 < 0 →
      halInit rt (some name) hal = some ((hal.attach rt).1, (hal.attach rt).2) := by
    intro hneg
    simp [halInit, hnot, hneg]
  by_cases hid : (rtapiInit hal).1 < 0
  · rw [if_pos hid] at heq
    have hneg : (hal.attach rt).1 < 0 := by rw [heq]; exact einval_neg
    exact Or.inl ⟨hneg, by rw [heq]; rfl, hfail hneg⟩
  rw [if_neg hid] at heq
  by_cases hmem : rt.shmemNew < 0
  · rw [if_pos hmem] at heq
    have hneg : (hal.attach rt).1 < 0 := by rw [heq]; exact einval_neg
    exact Or.inl ⟨hneg, by rw [heq]; rfl, hfail hneg⟩
  · rw [if_neg hmem] at heq
    have hne : (hal.attach rt).2.libMemId ≠ 0 := by rw [heq]; exact rt.shmemNew_ne
    refine Or.inr ⟨by rw [heq], hne, ?_⟩
    have hzero : (hal.attach rt).1 = 0 := by rw [heq]
    simp only [halInit, hnot, if_false, Hal.attach_mapped hne, hzero, Int.lt_irrefl]

/-- What `hal_init` has done when it returns. -/
theorem halInit_spec {rt : RtAnswer} {name : CString} {hal hal' : Hal} {r : Int} (hidle : hal.Idle)
    (h : halInit rt (some name) hal = some (r, hal')) :
    hal'.Idle ∧ hal.Inited name r hal' ∧ (hal.data.isSome → name.length ≤ halNameLen → (0 ≤ r ↔ hal.Accepts name)) := by
  by_cases hname : halNameLen < name.length
  · simp only [halInit, hname, if_true, Option.some.injEq, Prod.mk.injEq] at h
    obtain ⟨rfl, rfl⟩ := h
    exact ⟨hidle, Or.inl ⟨einval_neg, rfl⟩, fun _ hfits => absurd hname (by omega)⟩
  have hfits : name.length ≤ halNameLen := by omega
  rcases hdata : hal.data with _ | data
  · by_cases hlib : hal.libMemId = 0
    · rcases halInit_attach hlib hfits with ⟨hneg, hkeep, heq⟩ | ⟨hmap, hlib', heq⟩
      · obtain ⟨rfl, rfl⟩ := Prod.mk.inj (Option.some.inj (h.symm.trans heq))
        refine ⟨?_, Or.inl ⟨hneg, by simp [Hal.comps, hkeep]⟩, by simp⟩
        intro d hd
        rw [hkeep, hdata] at hd
        exact absurd hd (by simp)
      · obtain ⟨r', hal'', hrun, hidle', hinit, -⟩ :=
          @halInit_data rt name _ _ hmap HalData.idle_init hlib' hfits
        obtain ⟨rfl, rfl⟩ := Prod.mk.inj (Option.some.inj (h.symm.trans (heq.trans hrun)))
        have hnil : (hal.attach rt).2.comps = hal.comps := by simp [Hal.comps, hmap, hdata, initHalData]
        refine ⟨hidle', ?_, by simp⟩
        rwa [Hal.Inited, hnil] at hinit
    · -- a block that could not be mapped is still used
      rw [halInit_mapped hlib hfits, hdata, Option.bind_none] at h
      obtain ⟨-, h⟩ := Option.ite_none_right_eq_some.1 h
      obtain ⟨rfl, rfl⟩ := Prod.mk.inj (Option.some.inj h)
      refine ⟨?_, Or.inl ⟨einval_neg, rfl⟩, by simp⟩
      intro d hd
      exact absurd (hdata.symm.trans hd) (by simp)
  · obtain ⟨hi, hlib⟩ := hidle data hdata
    obtain ⟨r', hal'', hrun, hidle', hinit, hiff⟩ := @halInit_data rt name _ _ hdata hi hlib hfits
    obtain ⟨rfl, rfl⟩ := Prod.mk.inj (Option.some.inj (h.symm.trans hrun))
    exact ⟨hidle', hinit, fun _ _ => hiff⟩

/-! ### A name in use -/

theorem Hal.Held.data {hal : Hal} {name : CString} (h : hal.Held name) : hal.data.isSome := by
  obtain ⟨comp, hcomp, -⟩ := h
  rcases hdata : hal.data with _ | data
  · simp [Hal.comps, hdata] at hcomp
  · rfl

theorem Hal.Idle.fits {hal : Hal} (hidle : hal.Idle) : ∀ comp ∈ hal.comps, comp.createdAs.length ≤ halNameLen := by
  intro comp hcomp
  rcases hdata : hal.data with _ | data
  · simp [Hal.comps, hdata] at hcomp
  · exact (hidle data hdata).1.fits comp (by simpa [Hal.comps, hdata] using hcomp)

theorem Hal.Held.fits {hal : Hal} {name : CString} (hidle : hal.Idle) (h : hal.Held name) :
    name.length ≤ halNameLen := by
  obtain ⟨comp, hcomp, rfl⟩ := h
  exact hidle.fits comp hcomp

/-- The list is as it was, since the name was not accepted. -/
def Hal.Refused (hal : Hal) (name : CString) (hal' : Hal) : Prop :=
  hal'.comps = hal.comps ∧ (hal.Held name → ¬ hal.Accepts name)

/-- A component of the name has been added, since it was accepted. -/
def Hal.Added (hal : Hal) (name : CString) (hal' : Hal) : Prop :=
  hal'.comps.map HalComp.createdAs = name :: hal.comps.map HalComp.createdAs ∧ (hal.Held name → hal.Accepts name)

theorem halInit_outcome {rt : RtAnswer} {name : CString} {hal hal' : Hal} {r : Int} (hidle : hal.Idle)
    (h : halInit rt (some name) hal = some (r, hal')) :
    r < 0 ∧ hal.Refused name hal' ∨ 0 ≤ r ∧ hal.Added name hal' := by
  obtain ⟨-, hinit, hiff⟩ := halInit_spec hidle h
  rcases hinit with ⟨hr, hcomps⟩ | ⟨hr, comp, rfl, hcomps⟩
  · refine Or.inl ⟨hr, hcomps, fun hheld haccepts => ?_⟩
    have hpos := (hiff hheld.data (hheld.fits hidle)).2 haccepts
    omega
  · exact Or.inr ⟨hr, by rw [hcomps]; rfl, fun hheld => (hiff hheld.data (hheld.fits hidle)).1 hr⟩

/-- A request for a component treats the names as it should exactly if a name in use is one the code refuses. -/
theorem Hal.refusable_iff {hal hal' : Hal} {name : CString} {r : Int} (hunique : hal.NamesUnique)
    (h : r < 0 ∧ hal.Refused name hal' ∨ hal.Added name hal') :
    ((hal.Held name → r < 0 ∧ hal'.comps = hal.comps) ∧ hal'.NamesUnique) ↔ hal.Refusable name := by
  rw [Hal.Refusable]
  have hfree : hal.Held name → (hal.Accepts name ↔ ¬ (name = [] ∨ ¬ hal.HasRoom)) := by
    rintro ⟨comp, hcomp, -⟩
    have hne : hal.comps ≠ [] := List.ne_nil_of_mem hcomp
    rw [hal.accepts_iff]
    tauto
  rcases h with ⟨hr, hcomps, hno⟩ | ⟨hcomps, hyes⟩
  · refine iff_of_true ⟨fun _ => ⟨hr, hcomps⟩, by rwa [Hal.NamesUnique, hcomps]⟩ fun hheld => ?_
    by_contra hcon
    exact hno hheld ((hfree hheld).2 hcon)
  · have hlonger : hal'.comps ≠ hal.comps := by
      intro heq
      have hlen := congrArg List.length hcomps
      simp [heq] at hlen
    have hmem : hal.Held name ↔ name ∈ hal.comps.map HalComp.createdAs := by simp [Hal.Held]
    constructor
    · rintro ⟨hrefused, -⟩ hheld
      exact absurd (hrefused hheld).2 hlonger
    · intro hsafe
      have hnot : ¬ hal.Held name := fun hheld => (hfree hheld).1 (hyes hheld) (hsafe hheld)
      refine ⟨fun hheld => absurd hheld hnot, ?_⟩
      rw [Hal.NamesUnique, hcomps]
      exact List.nodup_cons.2 ⟨fun h => hnot (hmem.2 h), hunique⟩

/-! ### hal_exit -/

/-- What `hal_exit` does: the first component of that number goes, and its structure is free. -/
theorem halExit_spec {compId r : Int} {hal hal' : Hal} (hidle : hal.Idle) (h : halExit compId hal = some (r, hal')) :
    hal'.Idle ∧
      ((hal.comps.find? (fun comp => comp.compId == compId) = none ∧ hal'.comps = hal.comps) ∨
        ∃ comp data', hal.comps.find? (fun comp => comp.compId == compId) = some comp ∧
          hal' = { hal with data := some data' } ∧ data'.compFree ≠ [] ∧
          data'.compList = hal.comps.eraseP fun comp => comp.compId == compId) := by
  rcases hdata : hal.data with _ | data
  · simp only [halExit, hdata, Option.some.injEq, Prod.mk.injEq] at h
    obtain ⟨-, rfl⟩ := h
    exact ⟨hidle, Or.inl ⟨by simp [Hal.comps, hdata], rfl⟩⟩
  · obtain ⟨hi, hlib⟩ := hidle data hdata
    have hcomps : hal.comps = data.compList := by simp [Hal.comps, hdata]
    simp only [halExit, hdata, HalData.halExit, HalData.withMutex_free hi.mutex, halprFindCompById,
      HalData.setMutex_compList] at h
    rw [hcomps]
    rcases hfind : data.compList.find? (fun comp => comp.compId == compId) with _ | comp
    · rw [hfind] at h
      obtain ⟨-, rfl⟩ := Prod.mk.inj (Option.some.inj h)
      refine ⟨?_, Or.inl ⟨hfind, by simp [Hal.comps]⟩⟩
      intro d hd
      obtain rfl := Option.some.inj hd
      exact ⟨⟨rfl, hi.stored, hi.fits⟩, hlib⟩
    · rw [hfind] at h
      obtain ⟨-, rfl⟩ := Prod.mk.inj (Option.some.inj h)
      refine ⟨?_, Or.inr ⟨comp, _, hfind, rfl, by simp [freeCompStruct, HalData.setMutex], by simp [freeCompStruct]⟩⟩
      intro d hd
      obtain rfl := Option.some.inj hd
      exact ⟨⟨rfl, fun c hc => hi.stored c (List.mem_of_mem_eraseP hc), fun c hc => hi.fits c
        (List.mem_of_mem_eraseP hc)⟩, hlib⟩

/-- Only the list of one component is emptied by taking one away. -/
theorem eraseP_eq_nil {α : Type} {p : α → Bool} {l : List α} {a : α} (h : l.find? p = some a) :
    l.eraseP p = [] ↔ l = [a] := by
  obtain ⟨hp, as, bs, rfl, hnone⟩ := List.find?_eq_some_iff_append.1 h
  have hskip : ∀ b ∈ as, ¬ p b = true := by simpa using hnone
  rw [List.eraseP_append_right _ hskip, List.eraseP_cons_of_pos hp]
  rcases as with _ | ⟨b, as⟩
  · simp
  · simp

/-- The name of a component that has exited can be used again exactly if a number is left and, for the empty name, no
other component is live. -/
theorem halExit_again {compId : Int} {hal hal' : Hal} {r : Int} {comp : HalComp} (hidle : hal.Idle)
    (h : halExit compId hal = some (r, hal'))
    (hfind : hal.comps.find? (fun comp => comp.compId == compId) = some comp) :
    (∀ rt, ∃ id hal'', halInit rt (some comp.createdAs) hal' = some (id, hal'') ∧ 0 ≤ id) ↔
      0 ≤ (rtapiInit hal).1 ∧ (comp.createdAs = [] → hal.comps = [comp]) := by
  obtain ⟨hidle', ⟨hnone, -⟩ | ⟨comp', data', hfind', rfl, hfree, hlist⟩⟩ := halExit_spec hidle h
  · exact absurd (hfind.symm.trans hnone) (by simp)
  obtain rfl : comp = comp' := Option.some.inj (hfind.symm.trans hfind')
  obtain ⟨hi, hlib⟩ := hidle' data' rfl
  have hfits : comp.createdAs.length ≤ halNameLen := hidle.fits comp (List.mem_of_find?_eq_some hfind)
  have haccepts : ({ hal with data := some data' } : Hal).Accepts comp.createdAs ↔
      0 ≤ (rtapiInit hal).1 ∧ (comp.createdAs = [] → hal.comps = [comp]) := by
    obtain ⟨p, rest, hp⟩ := List.exists_cons_of_ne_nil hfree
    have halloc : (halprAllocCompStruct data').isSome := by simp [halprAllocCompStruct, hp]
    rw [← eraseP_eq_nil hfind, ← hlist]
    simp [Hal.Accepts, HalData.Accepts, rtapiInit, halloc]
  rw [← haccepts]
  constructor
  · intro hagain
    let rt : RtAnswer := ⟨1, 0, 0, by decide⟩
    obtain ⟨id, hal'', hrun, hpos⟩ := hagain rt
    obtain ⟨r', hal₃, hrun', -, -, hiff⟩ :=
      @halInit_data rt comp.createdAs { hal with data := some data' } data' rfl hi hlib hfits
    obtain ⟨rfl, rfl⟩ := Prod.mk.inj (Option.some.inj (hrun.symm.trans hrun'))
    exact hiff.1 hpos
  · intro hyes rt
    obtain ⟨r', hal₃, hrun', -, -, hiff⟩ :=
      @halInit_data rt comp.createdAs { hal with data := some data' } data' rfl hi hlib hfits
    exact ⟨r', hal₃, hrun', hiff.2 hyes⟩

/-! ### Threads -/

/-- Two blocks with the same mutex and the same names of components. -/
def HalData.SameNames (data data' : HalData) : Prop :=
  data'.mutex = data.mutex ∧
    data'.compList.map (fun comp => (comp.name, comp.createdAs)) =
      data.compList.map fun comp => (comp.name, comp.createdAs)

namespace HalData.SameNames

variable {data data' data'' : HalData}

theorem of_eq (hm : data'.mutex = data.mutex) (hl : data'.compList = data.compList) : data.SameNames data' :=
  ⟨hm, by rw [hl]⟩

theorem trans (h : data.SameNames data') (h' : data'.SameNames data'') : data.SameNames data'' :=
  ⟨h'.1.trans h.1, h'.2.trans h.2⟩

theorem createdAs (h : data.SameNames data') :
    data'.compList.map HalComp.createdAs = data.compList.map HalComp.createdAs := by
  have hsnd := congrArg (List.map Prod.snd) h.2
  simpa only [List.map_map, Function.comp_def] using hsnd

theorem idle (h : data.SameNames data') (hi : data.Idle) : data'.Idle := by
  have hsame : ∀ comp ∈ data'.compList, ∃ comp' ∈ data.compList, comp'.name = comp.name ∧
      comp'.createdAs = comp.createdAs := by
    intro comp hcomp
    have hmem := h.2 ▸ List.mem_map_of_mem (f := fun comp : HalComp => (comp.name, comp.createdAs)) hcomp
    obtain ⟨comp', hcomp', heq⟩ := List.mem_map.1 hmem
    exact ⟨comp', hcomp', congrArg Prod.fst heq, congrArg Prod.snd heq⟩
  refine ⟨h.1.trans hi.mutex, ?_, ?_⟩
  · intro comp hcomp
    obtain ⟨comp', hcomp', hname, -⟩ := hsame comp hcomp
    rw [← hname]
    exact hi.stored comp' hcomp'
  · intro comp hcomp
    obtain ⟨comp', hcomp', -, hname⟩ := hsame comp hcomp
    rw [← hname]
    exact hi.fits comp' hcomp'

/-- What is done under the mutex may hold it. -/
theorem withMutex {α : Type} {f : HalData → Option (α × HalData)} {r : α}
    (hf : ∀ d r d', f d = some (r, d') → d.SameNames d') (h : data.withMutex f = some (r, data')) :
    data.SameNames data' := by
  unfold HalData.withMutex at h
  obtain ⟨hmutex, h⟩ := Option.ite_none_left_eq_some.1 h
  obtain ⟨⟨r', d⟩, hrun, heq⟩ := Option.map_eq_some_iff.1 h
  obtain ⟨-, rfl⟩ := Prod.mk.inj heq
  exact ⟨by simpa using hmutex, (hf _ _ _ hrun).2⟩

end HalData.SameNames

theorem HalItems.alloc_frame {size : Int} {items items' : HalItems} {data data' : HalData}
    (h : items.alloc size data = some (items', data')) : data.SameNames data' := by
  unfold HalItems.alloc at h
  split at h
  · obtain ⟨-, rfl⟩ := Prod.mk.inj (Option.some.inj h)
    exact .of_eq rfl rfl
  · obtain ⟨⟨off, d⟩, hoff, heq⟩ := Option.map_eq_some_iff.1 h
    obtain ⟨-, rfl⟩ := Prod.mk.inj heq
    obtain ⟨hm, hl⟩ := shmallocDn_frame hoff
    exact .of_eq hm hl

/-- Parameters and pins leave the components alone. -/
theorem HalData.itemNew_frame {size compId r : Int} {items : HalData → HalItems} {store : HalItems → HalData → HalData}
    {name : CString} {data data' : HalData} (hstore : ∀ (new : HalItems) (d : HalData), d.SameNames (store new d))
    (h : data.itemNew size items store name compId = some (r, data')) : data.SameNames data' := by
  unfold HalData.itemNew at h
  split at h
  · obtain ⟨-, rfl⟩ := Prod.mk.inj (Option.some.inj h)
    exact .of_eq rfl rfl
  split at h
  · obtain ⟨-, rfl⟩ := Prod.mk.inj (Option.some.inj h)
    exact .of_eq rfl rfl
  refine HalData.SameNames.withMutex ?_ h
  intro d r d' hd
  split at hd
  · obtain ⟨-, rfl⟩ := Prod.mk.inj (Option.some.inj hd)
    exact .of_eq rfl rfl
  split at hd
  · obtain ⟨-, rfl⟩ := Prod.mk.inj (Option.some.inj hd)
    exact .of_eq rfl rfl
  split at hd
  · obtain ⟨-, rfl⟩ := Prod.mk.inj (Option.some.inj hd)
    exact .of_eq rfl rfl
  · rename_i new data halloc
    have hsame := HalItems.alloc_frame halloc
    split at hd
    · obtain ⟨-, rfl⟩ := Prod.mk.inj (Option.some.inj hd)
      exact hsame.trans (hstore _ _)
    · obtain ⟨-, rfl⟩ := Prod.mk.inj (Option.some.inj hd)
      exact hsame.trans (hstore _ _)

theorem HalData.halReady_frame {compId r : Int} {data data' : HalData} (h : data.halReady compId = some (r, data')) :
    data.SameNames data' := by
  refine HalData.SameNames.withMutex ?_ h
  intro d r d' hd
  split at hd
  · obtain ⟨-, rfl⟩ := Prod.mk.inj (Option.some.inj hd)
    exact .of_eq rfl rfl
  split at hd
  · obtain ⟨-, rfl⟩ := Prod.mk.inj (Option.some.inj hd)
    exact .of_eq rfl rfl
  · obtain ⟨-, rfl⟩ := Prod.mk.inj (Option.some.inj hd)
    refine ⟨rfl, List.ext_getElem? fun i => ?_⟩
    rw [List.getElem?_map, List.getElem?_map, List.getElem?_modify]
    rcases d.compList[i]? with _ | comp
    · rfl
    · by_cases hi : List.findIdx (fun comp => comp.compId == compId) d.compList = i <;> simp [hi]

theorem HalData.halParamS32New_frame {name : CString} {compId r : Int} {data data' : HalData}
    (h : data.halParamS32New name compId = some (r, data')) : data.SameNames data' := by
  unfold HalData.halParamS32New at h
  refine HalData.itemNew_frame ?_ h
  exact fun _ _ => .of_eq rfl rfl

theorem HalData.halPinNewf_frame {name : CString} {compId r : Int} {data data' : HalData}
    (h : data.halPinNewf name compId = some (r, data')) : data.SameNames data' := by
  unfold HalData.halPinNewf HalData.halPinNew at h
  split at h
  · obtain ⟨-, rfl⟩ := Prod.mk.inj (Option.some.inj h)
    exact .of_eq rfl rfl
  · refine HalData.itemNew_frame ?_ h
    exact fun _ _ => .of_eq rfl rfl

theorem HalData.finishThread_frame {name : CString} {compId r : Int} {data data' : HalData}
    (h : data.finishThread name compId = some (r, data')) : data.SameNames data' := by
  unfold HalData.finishThread at h
  obtain ⟨⟨rp, dp⟩, hparam, h⟩ := Option.bind_eq_some_iff.1 h
  have hp := HalData.halParamS32New_frame hparam
  dsimp only at h
  split at h
  · obtain ⟨-, rfl⟩ := Prod.mk.inj (Option.some.inj h)
    exact hp
  obtain ⟨⟨rq, dq⟩, hpin, h⟩ := Option.bind_eq_some_iff.1 h
  have hq := HalData.halPinNewf_frame hpin
  dsimp only at h
  split at h
  · obtain ⟨-, rfl⟩ := Prod.mk.inj (Option.some.inj h)
    exact hp.trans hq
  · obtain ⟨⟨rr, dr⟩, hready, heq⟩ := Option.map_eq_some_iff.1 h
    obtain ⟨-, rfl⟩ := Prod.mk.inj heq
    exact (hp.trans hq).trans (HalData.halReady_frame hready)

theorem Hal.clockFits_frame (period : UInt64) (hal : Hal) :
    (hal.clockFits period).2.data = hal.data ∧ (hal.clockFits period).2.libMemId = hal.libMemId := by
  by_cases h : hal.period = 0
  · by_cases hp : period.toInt64.toInt = 0 <;> simp [Hal.clockFits, rtapiClockSetPeriod, h, hp]
  · simp [Hal.clockFits, rtapiClockSetPeriod, h]

theorem allocThreadStruct_frame {data data' : HalData} (h : allocThreadStruct data = some data') :
    data'.mutex = data.mutex ∧ data'.compList = data.compList := by
  unfold allocThreadStruct at h
  split at h
  · obtain rfl := Option.some.inj h
    exact ⟨rfl, rfl⟩
  · obtain ⟨⟨off, d⟩, hoff, rfl⟩ := Option.map_eq_some_iff.1 h
    exact shmallocDn_frame hoff

/-- The library with another block of the same names. -/
theorem Hal.Idle.of_data {hal hal' : Hal} {data data' : HalData} (hidle : hal.Idle) (hdata : hal.data = some data)
    (hdata' : hal'.data = some data') (hlib : hal'.libMemId = hal.libMemId) (hsame : data.SameNames data') :
    hal'.Idle := by
  obtain ⟨hi, hl⟩ := hidle data hdata
  intro d hd
  obtain rfl := Option.some.inj (hdata'.symm.trans hd)
  exact ⟨hsame.idle hi, hlib ▸ hl⟩

/-- The part of `hal_create_thread` before its `hal_init` leaves the components alone. -/
theorem startThread_frame {rt : RtAnswer} {name : CString} {period : UInt64} {hal hal' : Hal} {r : Except Int Unit}
    (hidle : hal.Idle) (h : startThread rt name period hal = some (r, hal')) :
    hal'.Idle ∧ hal'.comps = hal.comps ∧ ∀ code, r = .error code → code < 0 := by
  have hsame : ∀ {e : Int}, e < 0 → some ((.error e : Except Int Unit), hal) = some (r, hal') →
      hal'.Idle ∧ hal'.comps = hal.comps ∧ ∀ code, r = .error code → code < 0 := by
    intro e he heq
    obtain ⟨rfl, rfl⟩ := Prod.mk.inj (Option.some.inj heq)
    exact ⟨hidle, rfl, fun code hcode => by cases hcode; exact he⟩
  unfold startThread at h
  split at h
  · exact hsame einval_neg h
  rename_i data hdata
  split at h
  · exact hsame einval_neg h
  split at h
  · exact hsame einval_neg h
  split at h
  · exact hsame eperm_neg h
  split at h
  · exact absurd h (by simp)
  split at h
  · exact hsame einval_neg h
  split at h
  · exact hsame enomem_neg h
  -- from here on the thread has its structure, which a failure does not give back
  rename_i data₁ halloc
  obtain ⟨hmutex, hlist⟩ := allocThreadStruct_frame halloc
  have hkeep : ∀ {hal₁ : Hal} {data₂ : HalData} {res : Except Int Unit},
      some (res, hal₁) = some (r, hal') → hal₁.data = some data₂ → hal₁.libMemId = hal.libMemId →
      data₂.mutex = data₁.mutex → data₂.compList = data₁.compList → (∀ code, res = .error code → code < 0) →
      hal'.Idle ∧ hal'.comps = hal.comps ∧ ∀ code, r = .error code → code < 0 := by
    intro hal₁ data₂ res heq hd hl hm hc hres
    obtain ⟨rfl, rfl⟩ := Prod.mk.inj (Option.some.inj heq)
    refine ⟨hidle.of_data hdata hd hl (.of_eq (hm.trans hmutex) (hc.trans hlist)), ?_, hres⟩
    simp [Hal.comps, hd, hdata, hc, hlist]
  have hcode : ∀ code, (.error (-einval) : Except Int Unit) = .error code → code < 0 := by
    rintro _ ⟨⟩
    exact einval_neg
  obtain ⟨⟨fits, hal₁⟩, hclock⟩ : ∃ p : Bool × Hal, p = if data₁.threadList.isEmpty then
      ({ hal with data := some data₁ } : Hal).clockFits period else (true, { hal with data := some data₁ }) := ⟨_, rfl⟩
  have hclocked : hal₁.data = some data₁ ∧ hal₁.libMemId = hal.libMemId := by
    split at hclock
    · have hframe := Hal.clockFits_frame period { hal with data := some data₁ }
      rw [← hclock] at hframe
      exact hframe
    · cases hclock
      exact ⟨rfl, rfl⟩
  dsimp only at h
  rw [← hclock] at h
  dsimp only at h
  split at h
  · exact hkeep h hclocked.1 hclocked.2 rfl rfl hcode
  split at h
  · exact hkeep h hclocked.1 hclocked.2 rfl rfl hcode
  split at h
  · exact hkeep h hclocked.1 hclocked.2 rfl rfl hcode
  · refine hkeep h rfl hclocked.2 rfl rfl ?_
    rintro _ ⟨⟩

/-- What `hal_create_thread` has done once its thread runs is what its `hal_init` did. -/
theorem halCreateThread_outcome {rt : RtAnswer} {name : CString} {period : UInt64} {hal hal₁ hal' : Hal} {r : Int}
    (hidle : hal₁.Idle) (hstart : startThread rt name period hal = some (.ok (), hal₁))
    (h : halCreateThread rt name period hal = some (r, hal')) :
    hal'.Idle ∧ (r < 0 ∧ hal₁.Refused (pseudoName name) hal' ∨ hal₁.Added (pseudoName name) hal') := by
  unfold halCreateThread at h
  rw [hstart, Option.bind_some] at h
  obtain ⟨⟨compId, hal₂⟩, hinit, h⟩ := Option.bind_eq_some_iff.1 h
  obtain ⟨data, hdata, h⟩ := Option.bind_eq_some_iff.1 h
  obtain ⟨hi, hlib⟩ := (halInit_spec hidle hinit).1 data hdata
  have hset : data.SameNames (data.setThreadComp compId) := .of_eq rfl rfl
  have hcomps : hal₂.comps = data.compList := by simp [Hal.comps, hdata]
  have hout := halInit_outcome hidle hinit
  rw [Hal.Refused, Hal.Added, hcomps] at hout
  split at h
  · -- the component was refused: only the thread is new
    rename_i hneg
    obtain ⟨rfl, rfl⟩ := Prod.mk.inj (Option.some.inj h)
    obtain ⟨-, hrefused⟩ := hout.resolve_right fun h => by omega
    refine ⟨?_, Or.inl ⟨einval_neg, hrefused⟩⟩
    intro d hd
    obtain rfl := Option.some.inj hd
    exact ⟨hset.idle hi, hlib⟩
  · rename_i hpos
    obtain ⟨-, hadded⟩ := hout.resolve_left fun h => by omega
    obtain ⟨⟨r', data'⟩, hfinish, heq⟩ := Option.map_eq_some_iff.1 h
    obtain ⟨rfl, rfl⟩ := Prod.mk.inj heq
    have hsame := hset.trans (HalData.finishThread_frame hfinish)
    refine ⟨?_, Or.inr ⟨?_, hadded.2⟩⟩
    · intro d hd
      obtain rfl := Option.some.inj hd
      exact ⟨hsame.idle hi, hlib⟩
    · rw [← hadded.1]
      exact hsame.createdAs

/-- `hal_thread_delete` returns only where it has no component to remove: `hal_exit` would wait for the mutex. -/
theorem HalData.threadDelete_frame {name : CString} {data data' : HalData} {r : Int}
    (h : data.threadDelete name = some (r, data')) : data'.mutex = data.mutex ∧ data'.compList = data.compList := by
  unfold HalData.threadDelete HalData.withMutex at h
  obtain ⟨hmutex, h⟩ := Option.ite_none_left_eq_some.1 h
  obtain ⟨⟨r', d⟩, hrun, heq⟩ := Option.map_eq_some_iff.1 h
  obtain ⟨-, rfl⟩ := Prod.mk.inj heq
  refine ⟨by simpa using hmutex, ?_⟩
  dsimp only at hrun
  split at hrun
  · obtain ⟨-, rfl⟩ := Prod.mk.inj (Option.some.inj hrun)
    rfl
  · rename_i thread _
    obtain ⟨⟨r₁, d₁⟩, hexit, heq⟩ := Option.map_eq_some_iff.1 hrun
    obtain ⟨-, rfl⟩ := Prod.mk.inj heq
    split at hexit
    · simp [HalData.halExit, HalData.withMutex] at hexit
    · obtain ⟨-, rfl⟩ := Prod.mk.inj (Option.some.inj hexit)
      rfl

theorem halThreadDelete_frame {name : CString} {hal hal' : Hal} {r : Int} (hidle : hal.Idle)
    (h : halThreadDelete name hal = some (r, hal')) : hal'.Idle ∧ hal'.comps = hal.comps := by
  unfold halThreadDelete at h
  split at h
  · obtain ⟨-, rfl⟩ := Prod.mk.inj (Option.some.inj h)
    exact ⟨hidle, rfl⟩
  rename_i data hdata
  split at h
  · obtain ⟨-, rfl⟩ := Prod.mk.inj (Option.some.inj h)
    exact ⟨hidle, rfl⟩
  · obtain ⟨⟨r', data'⟩, hdel, heq⟩ := Option.map_eq_some_iff.1 h
    obtain ⟨-, rfl⟩ := Prod.mk.inj heq
    obtain ⟨hm, hl⟩ := HalData.threadDelete_frame hdel
    exact ⟨hidle.of_data hdata rfl rfl (.of_eq hm hl), by simp [Hal.comps, hdata, hl]⟩

/-! ### Runs -/

/-- The library between calls, with no name held twice. -/
def Hal.Good (hal : Hal) : Prop := hal.Idle ∧ hal.NamesUnique

theorem Hal.good_start (uuid : Int) : (Hal.start uuid).Good :=
  ⟨fun data h => absurd h (by simp [Hal.start]), by simp [Hal.NamesUnique, Hal.comps, Hal.start]⟩

/-- Every call returns to a library at rest. -/
theorem HalCall.idle {call : HalCall} {hal hal' : Hal} {r : Int} (hidle : hal.Idle)
    (h : call.run hal = some (r, hal')) : hal'.Idle := by
  cases call with
  | init rt name =>
    rcases name with _ | name
    · obtain ⟨-, rfl⟩ := Prod.mk.inj (Option.some.inj h)
      exact hidle
    · exact (halInit_spec hidle h).1
  | createThread rt name period =>
    obtain ⟨⟨res, hal₁⟩, hstart, -⟩ := Option.bind_eq_some_iff.1 h
    obtain ⟨hidle₁, -, -⟩ := startThread_frame hidle hstart
    rcases res with code | ⟨⟩
    · simp only [HalCall.run, halCreateThread, hstart, Option.bind_some, Option.some.injEq, Prod.mk.injEq] at h
      exact h.2 ▸ hidle₁
    · exact (halCreateThread_outcome hidle₁ hstart h).1
  | threadDelete name => exact (halThreadDelete_frame hidle h).1
  | exit compId => exact (halExit_spec hidle h).1

/-- A call treats the names as it should exactly if it is one of those the uniqueness of names survives. -/
theorem HalCall.keepsNames_iff {call : HalCall} {hal hal' : Hal} {r : Int} (hgood : hal.Good)
    (h : call.run hal = some (r, hal')) : call.KeepsNames hal r hal' ↔ call.Harmless hal := by
  obtain ⟨hidle, hunique⟩ := hgood
  have hsame : hal'.comps = hal.comps → hal'.NamesUnique := fun hcomps => by rwa [Hal.NamesUnique, hcomps]
  -- only the calls that create a component, and the exit, touch the list of components
  cases call with
  | init rt name =>
    rcases name with _ | name
    · obtain ⟨-, rfl⟩ := Prod.mk.inj (Option.some.inj h)
      refine iff_of_true ⟨?_, hunique, ?_⟩ fun n hn => by cases hn
      · intro n hn
        cases hn
      · intro compId hcall
        cases hcall
    · have hout := (halInit_outcome hidle h).imp_right And.right
      have hiff := Hal.refusable_iff hunique hout
      constructor
      · intro hkeeps n hn
        cases hn
        exact hiff.1 ⟨hkeeps.refused name rfl, hkeeps.unique⟩
      · intro hharmless
        obtain ⟨hrefused, hunique'⟩ := hiff.2 (hharmless name rfl)
        refine ⟨?_, hunique', ?_⟩
        · intro n hn
          cases hn
          exact hrefused
        · intro compId hcall
          cases hcall
  | createThread rt name period =>
    obtain ⟨⟨res, hal₁⟩, hstart, -⟩ := Option.bind_eq_some_iff.1 h
    obtain ⟨hidle₁, hcomps₁, hcode⟩ := startThread_frame hidle hstart
    have hother : ∀ compId, HalCall.createThread rt name period ≠ .exit compId := by
      intro compId hcall
      cases hcall
    rcases res with code | ⟨⟩
    · simp only [HalCall.run, halCreateThread, hstart, Option.bind_some, Option.some.injEq, Prod.mk.injEq] at h
      obtain ⟨rfl, rfl⟩ := h
      refine iff_of_true ⟨fun _ _ _ => ⟨hcode _ rfl, hcomps₁⟩, hsame hcomps₁, fun id hid => absurd hid (hother id)⟩ ?_
      intro hal₂ hstart₂
      rw [hstart] at hstart₂
      cases hstart₂
    · obtain ⟨-, hout⟩ := halCreateThread_outcome hidle₁ hstart h
      have hheld : ∀ n, hal₁.Held n ↔ hal.Held n := fun n => by rw [Hal.Held, Hal.Held, hcomps₁]
      have hiff := Hal.refusable_iff (by rwa [Hal.NamesUnique, hcomps₁]) hout
      rw [hheld, hcomps₁] at hiff
      constructor
      · intro hkeeps hal₂ hstart₂
        obtain rfl := (Prod.mk.inj (Option.some.inj (hstart.symm.trans hstart₂))).2
        exact hiff.1 ⟨hkeeps.refused _ rfl, hkeeps.unique⟩
      · intro hharmless
        obtain ⟨hrefused, hunique'⟩ := hiff.2 (hharmless hal₁ hstart)
        refine ⟨?_, hunique', fun id hid => absurd hid (hother id)⟩
        intro n hn
        obtain rfl := Option.some.inj hn
        exact hrefused
  | threadDelete name =>
    refine iff_of_true ⟨?_, hsame (halThreadDelete_frame hidle h).2, ?_⟩ trivial
    · intro n hn
      cases hn
    · intro compId hcall
      cases hcall
  | exit compId =>
    have hunique' : hal'.NamesUnique := by
      obtain ⟨-, ⟨-, hcomps⟩ | ⟨comp, data', -, rfl, -, hlist⟩⟩ := halExit_spec hidle h
      · exact hsame hcomps
      · have hsub : List.Sublist data'.compList hal.comps := hlist ▸ List.eraseP_sublist
        exact (hsub.map HalComp.createdAs).nodup hunique
    constructor
    · intro hkeeps comp hfind
      exact (halExit_again hidle h hfind).1 (hkeeps.again compId rfl comp hfind)
    · intro hharmless
      refine ⟨?_, hunique', ?_⟩
      · intro n hn
        cases hn
      · intro id hid comp hfind
        cases hid
        exact (halExit_again hidle h hfind).2 (hharmless comp hfind)

/-- In every sequence of calls names stay unique exactly if every call that is reached is harmless: no `hal_init`, and
none that `hal_create_thread` makes, is of a name in use, unless the name is empty or nothing is left for it; and a
component of the empty name exits last. -/
theorem halNames_iff (uuid : Int) (calls : List HalCall) :
    Lib.AllCalls HalCall.run (fun hal call r hal' => call.KeepsNames hal r hal') calls (Hal.start uuid) ↔
      Lib.AllCalls HalCall.run (fun hal call _ _ => call.Harmless hal) calls (Hal.start uuid) := by
  refine Lib.AllCalls.iff (I := Hal.Good) ?_ ?_ (Hal.good_start uuid)
  · intro hal call r hal' hgood hrun
    exact HalCall.keepsNames_iff hgood hrun
  · intro hal call r hal' hgood hrun hkeeps
    exact ⟨HalCall.idle hgood.1 hrun, hkeeps.unique⟩

/-- `hal_init("motmod")`, with the block at the handle after the counter's. -/
def initMotmod : HalCall := .init ⟨1, 0, 0, by decide⟩ (some [109, 111, 116, 109, 111, 100])

/-- The second `hal_init` of `"motmod"` succeeds while the first component is live. -/
theorem halNames_twice :
    ¬ Lib.AllCalls HalCall.run (fun hal call r hal' => call.KeepsNames hal r hal') [initMotmod, initMotmod]
      (Hal.start 0) := by
  intro h
  obtain ⟨hal₁, h₁, hheld⟩ : ∃ hal₁, initMotmod.run (Hal.start 0) = some (2, hal₁) ∧
      hal₁.Held [109, 111, 116, 109, 111, 100] := ⟨_, rfl, _, List.mem_cons_self, rfl⟩
  obtain ⟨hal₂, h₂⟩ : ∃ hal₂, initMotmod.run hal₁ = some (3, hal₂) := by
    cases h₁
    exact ⟨_, rfl⟩
  have hkeeps := ((h 2 hal₁ h₁).2 3 hal₂ h₂).1
  have hneg := (hkeeps.refused _ rfl hheld).1
  omega

end SoemMotion
