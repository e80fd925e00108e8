import Mathlib.Data.Int.CardIntervalMod
import SoemMotion.Shmem

/-!
# Numbers of modules

`rtapi_init` counts in a block of shared memory, and keeps the address of the first mapping of it for good;
`rtapi_exit` of the last module unmaps the block.  While some module has not left, the numbers run on from the counter
and are found where they are looked for (`Shared`); after that the next mapping has to be at the old address.
-/

namespace SoemMotion

open Lib

/-! ### Calls -/

/-- `UUID_KEY`. -/
def uuidKey : Int := 0x48484c34

/-- `sizeof(uuid_data_t)`. -/
def uuidSize : Nat := 16

/-- `uuid_data_t`. -/
structure UuidData where
  mutex : Bool
  uuid : Int

/-- The shared memory, the static variables of `rtapi_init`, and the counters in the blocks. -/
structure UuidState where
  shmem : Shmem
  uuidMemId : Int
  uuidData : Option Nat
  cell : Nat → UuidData

/-- How `rtapi_init` ends. -/
inductive InitReply
  | id (n : Int)
  | failed
  /-- It reads a counter that is not mapped. -/
  | unmapped

/-- `data` is what the kernel has in the segment when it is mapped.  None while the mutex is held. -/
def UuidState.rtapiInit (s : UuidState) (kernel : ShmKernel) (data : UuidData) : Option (InitReply × UuidState) :=
  match rtapiShmemNew s.shmem uuidKey uuidSize kernel with
  -- the `rtapi_exit` of these branches finds no handle with a negative number
  | (.error e, shmem) => some (.failed, { s with shmem := shmem, uuidMemId := e })
  | (.ok i, shmem) =>
    let mem := (shmem.array i).mem
    let cell := if (s.shmem.find uuidKey).isSome then s.cell else Function.update s.cell mem data
    let uuidData := s.uuidData.getD mem
    let s := { shmem := shmem, uuidMemId := i.val, uuidData := some uuidData, cell := cell }
    if (shmem.mapped uuidData).isNone then some (.unmapped, s)
    else if (cell uuidData).mutex then none
    else
      let id := Int.bmod ((cell uuidData).uuid + 1) (2 ^ 32)
      some (.id id, { s with cell := Function.update cell uuidData { mutex := false, uuid := id } })

def UuidState.rtapiExit (s : UuidState) (kernel : ShmRelease) : UuidState :=
  { s with shmem := (rtapiShmemDelete s.shmem s.uuidMemId kernel).2 }

/-! ### Runs -/

/-- A module that has not left: which of the numbers handed out is its, and that number. -/
structure LiveModule where
  turn : Nat
  id : Int
deriving DecidableEq

structure UuidRun where
  state : UuidState
  live : List LiveModule
  inits : Nat

def startUuid : UuidRun where
  state := { shmem := startShm.shmem, uuidMemId := 0, uuidData := none, cell := fun _ => ⟨false, 0⟩ }
  live := []
  inits := 0

inductive UuidCall
  | init (kernel : ShmKernel) (data : UuidData)
  | exit (m : LiveModule) (kernel : ShmRelease)

open Classical in
/-- A call that returns, the kernel answering as it should and an exit being of a module that has not left. -/
noncomputable def UuidCall.call : UuidCall → UuidRun → Option (InitReply × UuidRun)
  | .init kernel data, s =>
    if kernel.Keeps s.state.shmem uuidSize then
      (s.state.rtapiInit kernel data).map fun
        | (.id n, t) => (.id n, { state := t, live := ⟨s.inits + 1, n⟩ :: s.live, inits := s.inits + 1 })
        | (r, t) => (r, { s with state := t })
    else none
  | .exit m kernel, s =>
    if m ∈ s.live then some (.id m.id, { s with state := s.state.rtapiExit kernel, live := s.live.erase m }) else none

/-- An init finds the counter mapped, and its number is not that of a module that has not left. -/
def UuidCall.Sound (s : UuidRun) (e : UuidCall) (r : InitReply) (_ : UuidRun) : Prop :=
  match e, r with
  | .init _ _, .id n => ∀ m ∈ s.live, m.id ≠ n
  | .init _ _, .unmapped => False
  | _, _ => True

/-- Some module is still there, or the counter is mapped for the first time, or where it was the first time; and none
of the modules stays for 2^32 numbers. -/
def UuidCall.Fits (s : UuidRun) (e : UuidCall) (r : InitReply) (_ : UuidRun) : Prop :=
  match e, r with
  | .init _ _, .failed => True
  | .init kernel _, _ =>
    (s.live ≠ [] ∨ s.state.uuidData = none ∨ ∃ mem, s.state.uuidData = some mem ∧ kernel.attach = .ok mem) ∧
      ∀ m ∈ s.live, s.inits + 1 < m.turn + 2 ^ 32
  | .exit _ _, _ => True

/-! ### What a run keeps -/

/-- No module is there, and nothing is mapped. -/
structure UuidRun.Empty (s : UuidRun) : Prop where
  live : s.live = []
  invalid : ∀ i, (s.state.shmem.array i).valid = false
  mapped : ∀ a, s.state.shmem.mapped a = none

/-- Some module is there; the counter is mapped where `rtapi_init` looks for it, and is as many numbers past that of a
module as have been handed out since. -/
structure UuidRun.Shared (s : UuidRun) (i : Fin maxShm) : Prop where
  live : s.live ≠ []
  valid : (s.state.shmem.array i).valid = true ∧ (s.state.shmem.array i).key = uuidKey
  others : ∀ j, j ≠ i → (s.state.shmem.array j).valid = false
  count : (s.state.shmem.array i).count = Int.bmod s.live.length (2 ^ 32)
  memId : s.state.uuidMemId = i.val
  data : s.state.uuidData = some (s.state.shmem.array i).mem
  mapped : ∀ a, (s.state.shmem.mapped a).isSome = true ↔ a = (s.state.shmem.array i).mem
  turns : (s.live.map LiveModule.turn).Nodup
  recent : ∀ m ∈ s.live, 0 < m.turn ∧ m.turn ≤ s.inits ∧ s.inits < m.turn + 2 ^ 32
  ids : ∀ m ∈ s.live, m.id = Int.bmod ((s.state.cell (s.state.shmem.array i).mem).uuid - (s.inits - m.turn)) (2 ^ 32)

def UuidRun.Ok (s : UuidRun) : Prop := s.Empty ∨ ∃ i, s.Shared i

section Steps

variable {s t : UuidRun} {i : Fin maxShm} {kernel : ShmKernel} {data : UuidData}

theorem startUuid_ok : startUuid.Ok := .inl ⟨rfl, fun _ => rfl, fun _ => rfl⟩

theorem bmod_eq_bmod_iff_dvd {a b : Int} : Int.bmod a (2 ^ 32) = Int.bmod b (2 ^ 32) ↔ (2 ^ 32 : Int) ∣ a - b := by
  rw [Int.bmod_eq_bmod_iff_bmod_sub_eq_zero, ← Int.dvd_iff_bmod_eq_zero]
  norm_num

theorem dvd_bmod_sub (a : Int) : (2 ^ 32 : Int) ∣ Int.bmod a (2 ^ 32) - a := by
  have h := Int.dvd_bmod_sub_self (x := a) (m := 2 ^ 32)
  exact_mod_cast h

/-- No more than 2^32 modules are there at a time. -/
theorem UuidRun.Shared.length_le (h : s.Shared i) : s.live.length ≤ 2 ^ 32 := by
  have hsub : (s.live.map LiveModule.turn).toFinset ⊆ Finset.Ioc (s.inits - 2 ^ 32) s.inits := by
    intro turn hturn
    obtain ⟨m, hm, rfl⟩ := List.mem_map.1 (List.mem_toFinset.1 hturn)
    have hrecent := h.recent m hm
    rw [Finset.mem_Ioc]
    omega
  have hcard := Finset.card_le_card hsub
  rw [List.toFinset_card_of_nodup h.turns, List.length_map, Nat.card_Ioc] at hcard
  omega

/-- The next number is that of a module if and only if 2^32 numbers have been handed out since. -/
theorem UuidRun.Shared.id_eq_iff (h : s.Shared i) {m : LiveModule} (hm : m ∈ s.live) :
    m.id = Int.bmod ((s.state.cell (s.state.shmem.array i).mem).uuid + 1) (2 ^ 32) ↔
    ¬ s.inits + 1 < m.turn + 2 ^ 32 := by
  obtain ⟨hpos, hpast, hrecent⟩ := h.recent m hm
  rw [h.ids m hm, bmod_eq_bmod_iff_dvd]
  constructor
  · rintro ⟨k, hk⟩
    omega
  · intro hturn
    exact ⟨-1, by omega⟩

/-- The handle with the key is the one in use. -/
theorem UuidRun.Shared.find (h : s.Shared i) : s.state.shmem.find uuidKey = some i := by
  cases hfind : s.state.shmem.find uuidKey with
  | none =>
    have hnot := List.find?_eq_none.1 hfind i (List.mem_finRange i)
    rw [h.valid.1, h.valid.2] at hnot
    exact absurd (by rfl) hnot
  | some j =>
    by_cases hji : j = i
    · rw [hji]
    · have hvalid := (find_some hfind).1
      rw [h.others j hji] at hvalid
      cases hvalid

theorem UuidRun.Empty.find (h : s.Empty) : s.state.shmem.find uuidKey = none := by
  cases hfind : s.state.shmem.find uuidKey with
  | none => rfl
  | some j =>
    have hvalid := (find_some hfind).1
    rw [h.invalid j] at hvalid
    cases hvalid

/-- With a module there an init returns the number after the counter's. -/
theorem UuidRun.Shared.init (h : s.Shared i) {r : InitReply} {u : UuidState}
    (hinit : s.state.rtapiInit kernel data = some (r, u)) :
    r = .id (Int.bmod ((s.state.cell (s.state.shmem.array i).mem).uuid + 1) (2 ^ 32)) ∧
      u = { shmem := s.state.shmem.set i
              { s.state.shmem.array i with count := Int.bmod ((s.state.shmem.array i).count + 1) (2 ^ 32) }
            uuidMemId := i.val
            uuidData := some (s.state.shmem.array i).mem
            cell := Function.update s.state.cell (s.state.shmem.array i).mem
              { mutex := false, uuid := Int.bmod ((s.state.cell (s.state.shmem.array i).mem).uuid + 1) (2 ^ 32) }
          } := by
  have hmapped : (s.state.shmem.mapped (s.state.shmem.array i).mem).isNone = false := by
    rw [← Option.not_isSome, (h.mapped _).2 rfl]
    rfl
  unfold UuidState.rtapiInit rtapiShmemNew at hinit
  rw [h.find] at hinit
  dsimp only at hinit
  rw [h.data, Option.getD_some, Option.isSome_some, if_pos rfl] at hinit
  split at hinit
  · rename_i hnone
    exact absurd (hmapped.symm.trans hnone) (by decide)
  · split at hinit
    · cases hinit
    · cases hinit
      exact ⟨rfl, rfl⟩

/-- With no module there an init fails, or maps the counter; it finds it, if it is where the first one was. -/
theorem UuidRun.Empty.init (h : s.Empty) {r : InitReply} {u : UuidState}
    (hinit : s.state.rtapiInit kernel data = some (r, u)) :
    (r = .failed ∧ (∀ i, (u.shmem.array i).valid = false) ∧ u.shmem.mapped = s.state.shmem.mapped) ∨
      ∃ mem, kernel.attach = .ok mem ∧
        ((s.state.uuidData.getD mem ≠ mem ∧ r = .unmapped) ∨
          (s.state.uuidData.getD mem = mem ∧ r = .id (Int.bmod (data.uuid + 1) (2 ^ 32)) ∧ ∃ i id bytes, u =
            { shmem :=
                { array := Function.update s.state.shmem.array i
                    { valid := true, key := uuidKey, id := id, count := 1, size := uuidSize, mem := mem }
                  mapped := Function.update s.state.shmem.mapped mem (some bytes) }
              uuidMemId := i.val
              uuidData := some mem
              cell := Function.update (Function.update s.state.cell mem data) mem
                { mutex := false, uuid := Int.bmod (data.uuid + 1) (2 ^ 32) } })) := by
  have hset : ∀ (i : Fin maxShm) (handle : ShmHandle), handle.valid = false →
      ∀ j, (Function.update s.state.shmem.array i handle j).valid = false := by
    intro i handle hhandle j
    by_cases hji : j = i
    · rw [hji, Function.update_self, hhandle]
    · rw [Function.update_of_ne hji]
      exact h.invalid j
  unfold UuidState.rtapiInit rtapiShmemNew at hinit
  rw [h.find] at hinit
  cases hfree : s.state.shmem.free with
  | none =>
    rw [hfree] at hinit
    cases hinit
    exact .inl ⟨rfl, h.invalid, rfl⟩
  | some i =>
    rw [hfree] at hinit
    cases hget : kernel.get with
    | error errno =>
      rw [hget] at hinit
      cases hinit
      exact .inl ⟨rfl, hset i _ (h.invalid i), rfl⟩
    | ok segment =>
      obtain ⟨id, bytes⟩ := segment
      rw [hget] at hinit
      cases hattach : kernel.attach with
      | error errno =>
        rw [hattach] at hinit
        cases hinit
        exact .inl ⟨rfl, hset i _ (h.invalid i), rfl⟩
      | ok mem =>
        refine .inr ⟨mem, rfl, ?_⟩
        rw [hattach] at hinit
        simp only [Option.isSome_none, Bool.false_eq_true, if_false, Function.update_self] at hinit
        -- the pointer is set once and for all, to where the first segment was
        by_cases hsame : s.state.uuidData.getD mem = mem
        · simp only [hsame, Function.update_self, Option.isNone_some, Bool.false_eq_true, if_false] at hinit
          split at hinit
          · cases hinit
          · cases hinit
            exact .inr ⟨hsame, rfl, i, id, bytes, rfl⟩
        · simp only [Function.update_of_ne hsame, h.mapped, Option.isNone_none, if_true] at hinit
          cases hinit
          exact .inl ⟨hsame, rfl⟩

theorem UuidRun.Shared.afterInit (h : s.Shared i) (hages : ∀ m ∈ s.live, s.inits + 1 < m.turn + 2 ^ 32)
    {n : Int} {u : UuidState} (hinit : s.state.rtapiInit kernel data = some (.id n, u)) :
    UuidRun.Shared { state := u, live := ⟨s.inits + 1, n⟩ :: s.live, inits := s.inits + 1 } i := by
  obtain ⟨hn, rfl⟩ := h.init hinit
  cases hn
  refine ⟨List.cons_ne_nil _ _, ?_, fun j hji => ?_, ?_, rfl, ?_, fun a => ?_, ?_, fun m hm => ?_, fun m hm => ?_⟩
  · dsimp only [Shmem.set]
    rw [Function.update_self]
    exact h.valid
  · dsimp only [Shmem.set]
    rw [Function.update_of_ne hji]
    exact h.others j hji
  · dsimp only [Shmem.set]
    rw [Function.update_self, h.count, List.length_cons, bmod_eq_bmod_iff_dvd]
    obtain ⟨k, hk⟩ := dvd_bmod_sub s.live.length
    exact ⟨k, by omega⟩
  · dsimp only [Shmem.set]
    rw [Function.update_self]
  · dsimp only [Shmem.set]
    rw [Function.update_self]
    exact h.mapped a
  -- no module that lives has the new turn already
  · rw [List.map_cons, List.nodup_cons]
    refine ⟨fun hturn => ?_, h.turns⟩
    obtain ⟨m, hm, heq⟩ := List.mem_map.1 hturn
    have hpast := (h.recent m hm).2.1
    dsimp only at heq
    omega
  · dsimp only at hm ⊢
    rcases List.mem_cons.1 hm with rfl | hm
    · exact ⟨Nat.succ_pos _, le_rfl, Nat.lt_add_of_pos_right (by decide)⟩
    · have hrecent := h.recent m hm
      exact ⟨hrecent.1, by omega, hages m hm⟩
  · dsimp only [Shmem.set]
    rw [Function.update_self]
    dsimp only
    rw [Function.update_self]
    dsimp only at hm ⊢
    rcases List.mem_cons.1 hm with rfl | hm
    · dsimp only
      rw [bmod_eq_bmod_iff_dvd]
      obtain ⟨k, hk⟩ := dvd_bmod_sub ((s.state.cell (s.state.shmem.array i).mem).uuid + 1)
      exact ⟨-k, by omega⟩
    · rw [h.ids m hm, bmod_eq_bmod_iff_dvd]
      obtain ⟨k, hk⟩ := dvd_bmod_sub ((s.state.cell (s.state.shmem.array i).mem).uuid + 1)
      exact ⟨-k, by omega⟩

theorem UuidRun.Empty.afterInit (h : s.Empty) {n : Int} {u : UuidState}
    (hinit : s.state.rtapiInit kernel data = some (.id n, u)) :
    UuidRun.Ok { state := u, live := ⟨s.inits + 1, n⟩ :: s.live, inits := s.inits + 1 } := by
  rcases h.init hinit with ⟨hfail, -⟩ | ⟨mem, -, ⟨-, hfail⟩ | ⟨-, hn, i, id, bytes, rfl⟩⟩
  · cases hfail
  · cases hfail
  -- the first module, in a segment that nobody else has
  · cases hn
    refine .inr ⟨i, List.cons_ne_nil _ _, ?_, fun j hji => ?_, ?_, rfl, ?_, fun a => ?_, ?_,
      fun m hm => ?_, fun m hm => ?_⟩
    · dsimp only
      rw [Function.update_self]
      exact ⟨rfl, rfl⟩
    · dsimp only
      rw [Function.update_of_ne hji]
      exact h.invalid j
    · dsimp only
      rw [Function.update_self, h.live]
      show (1 : Int) = Int.bmod 1 (2 ^ 32)
      exact (bmod_of_int32 (by decide) (by decide)).symm
    · dsimp only
      rw [Function.update_self]
    · dsimp only
      rw [Function.update_self]
      by_cases ha : a = mem
      · rw [ha, Function.update_self]
        exact ⟨fun _ => rfl, fun _ => rfl⟩
      · rw [Function.update_of_ne ha, h.mapped]
        exact ⟨fun hnone => (nomatch hnone), fun heq => absurd heq ha⟩
    · rw [h.live]
      exact List.nodup_singleton _
    · rw [h.live] at hm
      rw [List.mem_singleton.1 hm]
      exact ⟨Nat.succ_pos _, le_rfl, Nat.lt_add_of_pos_right (by decide)⟩
    · rw [h.live] at hm
      rw [List.mem_singleton.1 hm]
      dsimp only
      rw [Function.update_self, Function.update_self, bmod_eq_bmod_iff_dvd]
      obtain ⟨k, hk⟩ := dvd_bmod_sub (data.uuid + 1)
      exact ⟨-k, by dsimp only; omega⟩

theorem UuidRun.Shared.afterExit (h : s.Shared i) {m : LiveModule} (hm : m ∈ s.live) (kernel : ShmRelease) :
    UuidRun.Ok { s with state := s.state.rtapiExit kernel, live := s.live.erase m } := by
  have hrange : 0 ≤ (i.val : Int) ∧ (i.val : Int).toNat < maxShm := ⟨by omega, by rw [Int.toNat_natCast]; exact i.isLt⟩
  have hindex : (⟨(i.val : Int).toNat, hrange.2⟩ : Fin maxShm) = i := Fin.ext (Int.toNat_natCast _)
  have hlength := h.length_le
  have herase := List.length_erase_of_mem hm
  have hpos : 0 < s.live.length := List.length_pos_of_mem hm
  have hcount : Int.bmod ((s.state.shmem.array i).count - 1) (2 ^ 32) = Int.bmod (s.live.erase m).length (2 ^ 32) := by
    rw [h.count, bmod_eq_bmod_iff_dvd]
    obtain ⟨k, hk⟩ := dvd_bmod_sub s.live.length
    exact ⟨k, by omega⟩
  unfold UuidState.rtapiExit rtapiShmemDelete
  rw [h.memId, dif_pos hrange]
  dsimp only
  rw [hindex, h.valid.1, if_neg (by decide), hcount]
  -- the last exit gives up the segment, any other only counts down
  by_cases hlast : Int.bmod (s.live.erase m).length (2 ^ 32) ≠ 0
  · rw [if_pos hlast]
    have hne : s.live.erase m ≠ [] := by
      intro hnil
      rw [hnil] at hlast
      exact hlast rfl
    have hsub : ∀ m' ∈ s.live.erase m, m' ∈ s.live := fun m' hm' => List.mem_of_mem_erase hm'
    refine .inr ⟨i, hne, ?_, fun j hji => ?_, ?_, rfl, ?_, fun a => ?_, ?_, fun m' hm' => h.recent m' (hsub m' hm'),
      fun m' hm' => ?_⟩
    · dsimp only [Shmem.set]
      rw [Function.update_self]
      exact ⟨rfl, h.valid.2⟩
    · dsimp only [Shmem.set]
      rw [Function.update_of_ne hji]
      exact h.others j hji
    · dsimp only [Shmem.set]
      rw [Function.update_self]
    · dsimp only [Shmem.set]
      rw [Function.update_self, h.data]
    · dsimp only [Shmem.set]
      rw [Function.update_self]
      exact h.mapped a
    · exact h.turns.sublist (List.erase_sublist.map _)
    · dsimp only [Shmem.set]
      rw [Function.update_self]
      exact h.ids m' (hsub m' hm')
  · rw [if_neg hlast]
    have hzero : (s.live.erase m).length = 0 := by
      have hdvd := Int.dvd_of_bmod_eq_zero (not_not.1 hlast)
      omega
    refine .inl ⟨List.eq_nil_of_length_eq_zero hzero, fun j => ?_, fun a => ?_⟩
    · dsimp only
      by_cases hji : j = i
      · rw [hji, Function.update_self]
      · rw [Function.update_of_ne hji]
        exact h.others j hji
    · dsimp only
      by_cases ha : a = (s.state.shmem.array i).mem
      · rw [ha, Function.update_self]
      · rw [Function.update_of_ne ha, ← Option.not_isSome_iff_eq_none, h.mapped]
        exact ha

/-- A call is sound if and only if it fits, and then the run is as before. -/
theorem uuid_step {e : UuidCall} {r : InitReply} (h : s.Ok) (hcall : e.call s = some (r, t)) :
    (e.Sound s r t ↔ e.Fits s r t) ∧ (e.Sound s r t → t.Ok) := by
  cases e with
  | exit m kernel =>
    unfold UuidCall.call at hcall
    dsimp only at hcall
    split at hcall
    · rename_i hm
      cases hcall
      refine ⟨⟨fun _ => trivial, fun _ => trivial⟩, fun _ => ?_⟩
      rcases h with h | ⟨i, h⟩
      · rw [h.live] at hm
        cases hm
      · exact h.afterExit hm kernel
    · cases hcall
  | init kernel data =>
    unfold UuidCall.call at hcall
    dsimp only at hcall
    split at hcall
    · obtain ⟨⟨reply, u⟩, hinit, heq⟩ := Option.map_eq_some_iff.1 hcall
      rcases h with h | ⟨i, h⟩
      -- no segment, a segment elsewhere than the kept pointer says, or the one it says
      · rcases h.init hinit with ⟨hr, hinvalid, hmapped⟩ | ⟨mem, hattach, ⟨hne, hr⟩ | ⟨hsame, hr, -⟩⟩
        · subst hr
          cases heq
          exact ⟨⟨fun _ => trivial, fun _ => trivial⟩,
            fun _ => .inl ⟨h.live, hinvalid, fun a => by rw [hmapped, h.mapped]⟩⟩
        · subst hr
          cases heq
          refine ⟨⟨fun hsound => hsound.elim, fun hfits => ?_⟩, fun hsound => hsound.elim⟩
          rcases hfits.1 with hlive | hnone | ⟨mem', hdata, hattach'⟩
          · exact hlive h.live
          · rw [hnone] at hne
            exact hne rfl
          · rw [hattach] at hattach'
            cases hattach'
            rw [hdata] at hne
            exact hne rfl
        · subst hr
          cases heq
          refine ⟨⟨fun _ => ⟨?_, fun m hm => ?_⟩, fun _ m hm => ?_⟩, fun _ => h.afterInit hinit⟩
          · cases hdata : s.state.uuidData with
            | none => exact .inr (.inl rfl)
            | some old =>
              rw [hdata] at hsame
              exact .inr (.inr ⟨mem, congrArg some hsame, hattach⟩)
          · rw [h.live] at hm
            cases hm
          · rw [h.live] at hm
            cases hm
      · obtain ⟨hr, -⟩ := h.init hinit
        subst hr
        cases heq
        have hages : (∀ m ∈ s.live, m.id ≠ Int.bmod ((s.state.cell (s.state.shmem.array i).mem).uuid + 1) (2 ^ 32)) ↔
            ∀ m ∈ s.live, s.inits + 1 < m.turn + 2 ^ 32 :=
          forall₂_congr fun m hm => (not_congr (h.id_eq_iff hm)).trans not_not
        exact ⟨⟨fun hsound => ⟨.inl h.live, hages.1 hsound⟩, fun hfits => hages.2 hfits.2⟩,
          fun hsound => .inr ⟨i, h.afterInit (hages.1 hsound) hinit⟩⟩
    · cases hcall

end Steps

/-- In a run of calls from the start, every init finds the counter mapped and returns a number that no module has that
has not left, if and only if every init fits. -/
theorem uuid_sound_iff (calls : List UuidCall) :
    AllCalls UuidCall.call UuidCall.Sound calls startUuid ↔ AllCalls UuidCall.call UuidCall.Fits calls startUuid :=
  AllCalls.iff (I := UuidRun.Ok) (fun _ e _ _ h hcall => (uuid_step (e := e) h hcall).1)
    (fun _ e _ _ h hcall => (uuid_step (e := e) h hcall).2) startUuid_ok

theorem init_call {s : UuidRun} {kernel : ShmKernel} {data : UuidData} {n : Int} {u : UuidState}
    (hkeeps : kernel.Keeps s.state.shmem uuidSize) (h : s.state.rtapiInit kernel data = some (.id n, u)) :
    UuidCall.call (.init kernel data) s =
      some (.id n, { state := u, live := ⟨s.inits + 1, n⟩ :: s.live, inits := s.inits + 1 }) := by
  unfold UuidCall.call
  dsimp only
  rw [if_pos hkeeps, h]
  rfl

theorem exit_call {s : UuidRun} {m : LiveModule} {kernel : ShmRelease} (hm : m ∈ s.live) :
    UuidCall.call (.exit m kernel) s =
      some (.id m.id, { s with state := s.state.rtapiExit kernel, live := s.live.erase m }) := by
  unfold UuidCall.call
  dsimp only
  rw [if_pos hm]

theorem unmapped_call {s : UuidRun} {kernel : ShmKernel} {data : UuidData} {u : UuidState}
    (hkeeps : kernel.Keeps s.state.shmem uuidSize) (h : s.state.rtapiInit kernel data = some (.unmapped, u)) :
    UuidCall.call (.init kernel data) s = some (.unmapped, { s with state := u }) := by
  unfold UuidCall.call
  dsimp only
  rw [if_pos hkeeps, h]
  rfl

/-- The module is initialised, leaves, and is initialised again; its block is now mapped somewhere else. -/
theorem uuid_not_sound : ¬ AllCalls UuidCall.call UuidCall.Sound
    [.init ⟨.ok (3, 4096), .ok 65536⟩ ⟨false, 0⟩, .exit ⟨1, 1⟩ ⟨some 0, true⟩,
    .init ⟨.ok (4, 4096), .ok 131072⟩ ⟨false, 0⟩]
    startUuid := by
  have hfirst : ∃ t, UuidCall.call (.init ⟨.ok (3, 4096), .ok 65536⟩ ⟨false, 0⟩) startUuid = some (.id 1, t) ∧
      ∃ u, UuidCall.call (.exit ⟨1, 1⟩ ⟨some 0, true⟩) t = some (.id 1, u) ∧
      ∃ v, UuidCall.call (.init ⟨.ok (4, 4096), .ok 131072⟩ ⟨false, 0⟩) u = some (.unmapped, v) := by
    refine ⟨_, init_call ⟨fun id bytes hget => by cases hget; decide, fun mem _ => rfl⟩ rfl, _,
      exit_call List.mem_cons_self, _,
      unmapped_call ⟨fun id bytes hget => by cases hget; decide, fun mem hmem => by cases hmem; rfl⟩ rfl⟩
  obtain ⟨t, ht, u, hu, v, hv⟩ := hfirst
  intro h
  exact (((h _ _ ht).2 _ _ hu).2 _ _ hv).1

end SoemMotion
