import Mathlib.Algebra.Order.Ring.Int
import Mathlib.Data.List.FinRange
import SoemMotion.HalComponents
import SoemMotion.Lib.Run

/-!
# Shared memory blocks

`rtapi_shmem_new` and `rtapi_shmem_delete` of `uspace_common.c`: the table of the blocks of the process, found by key
and counted.  A block is as large as the first call with its key asked for; a later call gets the same handle whatever
it asks for.  The answers of the kernel are arguments.
-/

namespace SoemMotion

open Lib

/-! ### The table -/

/-- `MAX_SHM`. -/
def maxShm : Nat := 64

instance neZeroMaxShm : NeZero maxShm := ⟨by decide⟩

/-- `rtapi_shmem_handle`. -/
structure ShmHandle where
  /-- `magic` is `SHMEM_MAGIC`. -/
  valid : Bool
  key : Int
  id : Int
  count : Int
  size : Nat
  mem : Nat
deriving DecidableEq

/-- `shmem_array`, and the bytes of the blocks that are mapped, by their addresses. -/
structure Shmem where
  array : Fin maxShm → ShmHandle
  mapped : Nat → Option Nat

/-- What the kernel answers to `shmget`, the number and the bytes of a segment, and to `shmat`, an address; or an
error. -/
structure ShmKernel where
  get : Except Int (Int × Nat)
  attach : Except Int Nat

/-- What the kernel answers to the two `shmctl` of a delete: the processes that still map the segment, and the
removal. -/
structure ShmRelease where
  stat : Option Nat
  rmid : Bool

/-- The size that `shmget` is given: `(int) size`, taken as a `size_t`. -/
def shmgetSize (size : Nat) : Nat := (Int.bmod size (2 ^ 32) % 2 ^ 64).toNat

def Shmem.find (s : Shmem) (key : Int) : Option (Fin maxShm) :=
  (List.finRange maxShm).find? fun i => (s.array i).valid && (s.array i).key == key

/-- The first handle that is not in use. -/
def Shmem.free (s : Shmem) : Option (Fin maxShm) := (List.finRange maxShm).find? fun i => !(s.array i).valid

def Shmem.set (s : Shmem) (i : Fin maxShm) (handle : ShmHandle) : Shmem :=
  { s with array := Function.update s.array i handle }

def rtapiShmemNew (s : Shmem) (key : Int) (size : Nat) (kernel : ShmKernel) : Except Int (Fin maxShm) × Shmem :=
  match s.find key with
  -- the block is handed out whatever size is asked for
  | some i => (.ok i, s.set i { s.array i with count := Int.bmod ((s.array i).count + 1) (2 ^ 32) })
  | none =>
    match s.free with
    | none => (.error (-enomem), s)
    | some i =>
      match kernel.get with
      | .error errno => (.error (-errno), s.set i { s.array i with id := -1 })
      | .ok (id, bytes) =>
        match kernel.attach with
        -- the answer `(void *) -1` of `shmat` is stored before it is looked at
        | .error errno => (.error (-errno), s.set i { s.array i with id := id, mem := 2 ^ 64 - 1 })
        | .ok mem =>
          (.ok i,
            { array := Function.update s.array i
                { valid := true, key := key, id := id, count := 1, size := size, mem := mem }
              mapped := Function.update s.mapped mem (some bytes) })

def rtapiShmemDelete (s : Shmem) (handle : Int) (kernel : ShmRelease) : Int × Shmem :=
  if h : 0 ≤ handle ∧ handle.toNat < maxShm then
    let i : Fin maxShm := ⟨handle.toNat, h.2⟩
    let block := s.array i
    if !block.valid then (-einval, s)
    else
      let count := Int.bmod (block.count - 1) (2 ^ 32)
      if count ≠ 0 then (0, s.set i { block with count := count })
      else
        let detached := (s.mapped block.mem).isSome
        let removed := match kernel.stat with
          | none => false
          | some nattch => nattch != 0 || kernel.rmid
        -- the handle is given up whatever the kernel answers
        (if detached && removed then 0 else -einval,
          { array := Function.update s.array i { block with valid := false, count := count }
            mapped := Function.update s.mapped block.mem none })
  else (-einval, s)

/-! ### Runs of calls -/

/-- The table, and how often each handle has been returned less how often it has been deleted. -/
structure ShmRun where
  shmem : Shmem
  uses : Fin maxShm → Int

/-- Before the first call. -/
def startShm : ShmRun where
  shmem := { array := fun _ => ⟨false, 0, 0, 0, 0, 0⟩, mapped := fun _ => none }
  uses := fun _ => 0

inductive ShmCall
  | new (key : Int) (size : Nat) (kernel : ShmKernel)
  | delete (handle : Fin maxShm) (kernel : ShmRelease)

/-- What the kernel promises: a segment of the size asked for, at an address where nothing is mapped. -/
structure ShmKernel.Keeps (kernel : ShmKernel) (s : Shmem) (size : Nat) : Prop where
  get : ∀ id bytes, kernel.get = .ok (id, bytes) → shmgetSize size ≤ bytes
  attach : ∀ mem, kernel.attach = .ok mem → s.mapped mem = none

open Classical in
/-- A call the kernel answers as it should, a delete being of a handle in use; none otherwise. -/
noncomputable def ShmCall.call : ShmCall → ShmRun → Option (Except Int (Fin maxShm) × ShmRun)
  | .new key size kernel, s =>
    if kernel.Keeps s.shmem size then
      match rtapiShmemNew s.shmem key size kernel with
      | (.ok i, t) => some (.ok i, { shmem := t, uses := Function.update s.uses i (s.uses i + 1) })
      | (.error e, t) => some (.error e, { s with shmem := t })
    else none
  | .delete i kernel, s =>
    if (s.shmem.array i).valid then
      some (.ok i, { shmem := (rtapiShmemDelete s.shmem i.val kernel).2, uses := Function.update s.uses i (s.uses i - 1) })
    else none

/-- The handle is in use while it has uses: they are counted, and the block is mapped. -/
structure ShmHandle.Counted (handle : ShmHandle) (mapped : Nat → Option Nat) (uses : Int) : Prop where
  used : handle.valid = true → handle.count = uses ∧ 0 < uses ∧ uses < 2 ^ 31
  unused : handle.valid = false → uses = 0
  mapped : handle.valid = true → (mapped handle.mem).isSome = true

/-- All handles are counted, and nothing is mapped but their blocks. -/
structure ShmRun.Accounted (s : ShmRun) : Prop where
  handle : ∀ i, (s.shmem.array i).Counted s.shmem.mapped (s.uses i)
  owned : ∀ a, (s.shmem.mapped a).isSome = true → ∃ i, (s.shmem.array i).valid = true ∧ (s.shmem.array i).mem = a
  apart : ∀ i j, (s.shmem.array i).valid = true → (s.shmem.array j).valid = true →
    (s.shmem.array i).mem = (s.shmem.array j).mem → i = j

/-- The block of the handle has at least `size` bytes. -/
def Shmem.Holds (s : Shmem) (i : Fin maxShm) (size : Nat) : Prop :=
  ∃ bytes, s.mapped (s.array i).mem = some bytes ∧ size ≤ bytes

/-- After the call all is accounted for, and a block it returns is large enough. -/
def ShmCall.Sound (_ : ShmRun) (e : ShmCall) (r : Except Int (Fin maxShm)) (t : ShmRun) : Prop :=
  t.Accounted ∧ match e with
    | .new _ size _ => ∀ i, r = .ok i → t.shmem.Holds i size
    | .delete _ _ => True

/-- A key that is known asks for no more than its block has, and has not been asked for 2^31 times; for a new one the
segment of the kernel is no smaller than the size. -/
def ShmCall.Fits (s : ShmRun) (e : ShmCall) (r : Except Int (Fin maxShm)) (_ : ShmRun) : Prop :=
  match e with
  | .new key size kernel => match s.shmem.find key with
    | some i => s.shmem.Holds i size ∧ (s.shmem.array i).count < 2 ^ 31 - 1
    | none => r.isOk → ∀ id bytes, kernel.get = .ok (id, bytes) → size ≤ bytes
  | .delete _ _ => True

/-! ### The table after a call -/

section Table

variable {s t : ShmRun} {i : Fin maxShm} {key : Int} {size : Nat}

theorem find_some {s : Shmem} (h : s.find key = some i) : (s.array i).valid = true ∧ (s.array i).key = key := by
  have hfound := List.find?_some h
  rw [Bool.and_eq_true] at hfound
  exact ⟨hfound.1, eq_of_beq hfound.2⟩

theorem free_some {s : Shmem} (h : s.free = some i) : (s.array i).valid = false := by
  have hfound := List.find?_some h
  simpa using hfound

theorem bmod_of_int32 {n : Int} (hmin : -2 ^ 31 ≤ n) (hmax : n < 2 ^ 31) : Int.bmod n (2 ^ 32) = n :=
  Int.bmod_eq_of_le_mul_two (by omega) (by omega)

theorem startShm_accounted : startShm.Accounted where
  handle := fun _ => ⟨fun h => (nomatch h), fun _ => rfl, fun h => (nomatch h)⟩
  owned := fun _ h => nomatch h
  apart := fun _ _ h => nomatch h

/-- One handle changes, and perhaps what is mapped. -/
theorem ShmRun.Accounted.update (h : s.Accounted) {handle : ShmHandle} {mapped : Nat → Option Nat} {n : Int}
    (hcounted : handle.Counted mapped n)
    (hothers : ∀ j, j ≠ i → (s.shmem.array j).valid = true →
      mapped (s.shmem.array j).mem = s.shmem.mapped (s.shmem.array j).mem ∧
        (handle.valid = true → (s.shmem.array j).mem ≠ handle.mem))
    (howned : ∀ a, (mapped a).isSome = true → handle.valid = true ∧ handle.mem = a ∨
      ∃ j, j ≠ i ∧ (s.shmem.array j).valid = true ∧ (s.shmem.array j).mem = a) :
    ShmRun.Accounted { shmem := ⟨Function.update s.shmem.array i handle, mapped⟩, uses := Function.update s.uses i n } := by
  refine ⟨fun j => ?_, fun a ha => ?_, fun j k hj hk hmem => ?_⟩
  · dsimp only
    by_cases hji : j = i
    · subst hji
      rw [Function.update_self, Function.update_self]
      exact hcounted
    · rw [Function.update_of_ne hji, Function.update_of_ne hji]
      obtain ⟨hused, hunused, hmapped⟩ := h.handle j
      refine ⟨hused, hunused, fun hj => ?_⟩
      rw [(hothers j hji hj).1]
      exact hmapped hj
  · dsimp only
    rcases howned a ha with ⟨hvalid, hmem⟩ | ⟨j, hji, hvalid, hmem⟩
    · refine ⟨i, ?_⟩
      rw [Function.update_self]
      exact ⟨hvalid, hmem⟩
    · refine ⟨j, ?_⟩
      rw [Function.update_of_ne hji]
      exact ⟨hvalid, hmem⟩
  · dsimp only at hj hk hmem
    by_cases hji : j = i
    · subst hji
      by_cases hkj : k = j
      · exact hkj.symm
      · rw [Function.update_self] at hj hmem
        rw [Function.update_of_ne hkj] at hk hmem
        exact absurd hmem.symm ((hothers k hkj hk).2 hj)
    · rw [Function.update_of_ne hji] at hj hmem
      by_cases hki : k = i
      · subst hki
        rw [Function.update_self] at hk hmem
        exact absurd hmem ((hothers j hji hj).2 hk)
      · rw [Function.update_of_ne hki] at hk hmem
        exact h.apart j k hj hk hmem

/-- What is mapped belongs to a handle that is not `i`, if `i` is not in use. -/
theorem ShmRun.Accounted.owned_others (h : s.Accounted) (hi : (s.shmem.array i).valid = false) {a : Nat}
    (ha : (s.shmem.mapped a).isSome = true) :
    ∃ j, j ≠ i ∧ (s.shmem.array j).valid = true ∧ (s.shmem.array j).mem = a := by
  obtain ⟨j, hj, hmem⟩ := h.owned a ha
  refine ⟨j, ?_, hj, hmem⟩
  rintro rfl
  rw [hi] at hj
  cases hj

/-- A change of a handle that is not in use. -/
theorem ShmRun.Accounted.setUnused (h : s.Accounted) {handle : ShmHandle} (hi : (s.shmem.array i).valid = false)
    (hhandle : handle.valid = false) : ShmRun.Accounted { s with shmem := s.shmem.set i handle } := by
  have hnot : ¬ handle.valid = true := by
    rw [hhandle]
    decide
  have hset := h.update (i := i) (n := s.uses i)
    ⟨fun hv => absurd hv hnot, fun _ => (h.handle i).unused hi, fun hv => absurd hv hnot⟩
    (fun j _ _ => ⟨rfl, fun hv => absurd hv hnot⟩) fun a ha => .inr (h.owned_others hi ha)
  rw [Function.update_eq_self] at hset
  exact hset

/-- A block that is returned once more, unless the counter overflows. -/
theorem accounted_again_iff (h : s.Accounted) (hi : (s.shmem.array i).valid = true) :
    ShmRun.Accounted
        { shmem := s.shmem.set i { s.shmem.array i with count := Int.bmod ((s.shmem.array i).count + 1) (2 ^ 32) }
          uses := Function.update s.uses i (s.uses i + 1) } ↔ (s.shmem.array i).count < 2 ^ 31 - 1 := by
  obtain ⟨hcount, hpos, hlt⟩ := (h.handle i).used hi
  constructor
  · intro hafter
    have hused := (hafter.handle i).used
    dsimp only [Shmem.set] at hused
    rw [Function.update_self, Function.update_self] at hused
    have hlt' := (hused hi).2.2
    omega
  · intro hsmall
    have hbmod : Int.bmod ((s.shmem.array i).count + 1) (2 ^ 32) = (s.shmem.array i).count + 1 :=
      bmod_of_int32 (by omega) (by omega)
    rw [hbmod]
    refine h.update ⟨fun _ => ⟨by dsimp only; omega, by omega, by omega⟩, fun hv => ?_,
      fun _ => (h.handle i).mapped hi⟩ ?_ ?_
    · exact absurd (hi.symm.trans hv) (by decide)
    · intro j hji hj
      exact ⟨rfl, fun _ hmem => hji (h.apart j i hj hi hmem)⟩
    · intro a ha
      obtain ⟨j, hj, hmem⟩ := h.owned a ha
      by_cases hji : j = i
      · exact .inl ⟨hi, hji ▸ hmem⟩
      · exact .inr ⟨j, hji, hj, hmem⟩

/-- A block that is mapped for a new key. -/
theorem accounted_attached (h : s.Accounted) (hi : (s.shmem.array i).valid = false) {mem bytes : Nat} {id : Int}
    (hfresh : s.shmem.mapped mem = none) :
    ShmRun.Accounted
      { shmem :=
          { array := Function.update s.shmem.array i
              { valid := true, key := key, id := id, count := 1, size := size, mem := mem }
            mapped := Function.update s.shmem.mapped mem (some bytes) }
        uses := Function.update s.uses i (s.uses i + 1) } := by
  have hzero := (h.handle i).unused hi
  have hne : ∀ j, (s.shmem.array j).valid = true → (s.shmem.array j).mem ≠ mem := by
    intro j hj hmem
    have hmapped := (h.handle j).mapped hj
    rw [hmem, hfresh] at hmapped
    cases hmapped
  refine h.update ⟨fun _ => ⟨by dsimp only; omega, by omega, by omega⟩, fun hv => (nomatch hv), fun _ => ?_⟩ ?_ ?_
  · rw [Function.update_self]
    rfl
  · intro j _ hj
    exact ⟨Function.update_of_ne (hne j hj) _ _, fun _ => hne j hj⟩
  · intro a ha
    by_cases ham : a = mem
    · exact .inl ⟨rfl, ham.symm⟩
    · rw [Function.update_of_ne ham] at ha
      exact .inr (h.owned_others hi ha)

/-- A delete. -/
theorem accounted_deleted (h : s.Accounted) (hi : (s.shmem.array i).valid = true) (kernel : ShmRelease) :
    ShmRun.Accounted { shmem := (rtapiShmemDelete s.shmem i.val kernel).2, uses := Function.update s.uses i (s.uses i - 1) } := by
  obtain ⟨hcount, hpos, hlt⟩ := (h.handle i).used hi
  have hbmod : Int.bmod ((s.shmem.array i).count - 1) (2 ^ 32) = (s.shmem.array i).count - 1 :=
    bmod_of_int32 (by omega) (by omega)
  have hrange : 0 ≤ (i.val : Int) ∧ (i.val : Int).toNat < maxShm := ⟨by omega, by rw [Int.toNat_natCast]; exact i.isLt⟩
  have hindex : (⟨(i.val : Int).toNat, hrange.2⟩ : Fin maxShm) = i := Fin.ext (Int.toNat_natCast _)
  unfold rtapiShmemDelete
  rw [dif_pos hrange]
  dsimp only
  rw [hindex, hi, hbmod, if_neg (by decide)]
  -- the last use gives up the slot and the mapping, any other only counts down
  by_cases hlast : (s.shmem.array i).count - 1 ≠ 0
  · rw [if_pos hlast]
    refine h.update ⟨fun _ => ⟨by dsimp only; omega, by omega, by omega⟩, fun hv => (nomatch hv),
      fun _ => (h.handle i).mapped hi⟩ ?_ ?_
    · intro j hji hj
      exact ⟨rfl, fun _ hmem => hji (h.apart j i hj hi hmem)⟩
    · intro a ha
      obtain ⟨j, hj, hmem⟩ := h.owned a ha
      by_cases hji : j = i
      · exact .inl ⟨rfl, hji ▸ hmem⟩
      · exact .inr ⟨j, hji, hj, hmem⟩
  · rw [if_neg hlast]
    refine h.update ⟨fun hv => (nomatch hv), fun _ => by omega, fun hv => (nomatch hv)⟩ ?_ ?_
    · intro j hji hj
      exact ⟨Function.update_of_ne (fun hmem => hji (h.apart j i hj hi hmem)) _ _, fun hv => (nomatch hv)⟩
    · intro a ha
      by_cases ham : a = (s.shmem.array i).mem
      · rw [ham, Function.update_self] at ha
        cases ha
      · rw [Function.update_of_ne ham] at ha
        obtain ⟨j, hj, hmem⟩ := h.owned a ha
        refine .inr ⟨j, ?_, hj, hmem⟩
        rintro rfl
        exact ham hmem.symm

/-! ### Runs -/

theorem holds_set (s : Shmem) {i : Fin maxShm} (handle : ShmHandle) (hmem : handle.mem = (s.array i).mem) (size : Nat) :
    (s.set i handle).Holds i size ↔ s.Holds i size := by
  unfold Shmem.Holds Shmem.set
  dsimp only
  rw [Function.update_self, hmem]

/-- A call is sound if and only if it fits. -/
theorem sound_iff_fits {e : ShmCall} {r : Except Int (Fin maxShm)} (h : s.Accounted) (hcall : e.call s = some (r, t)) :
    e.Sound s r t ↔ e.Fits s r t := by
  cases e with
  | delete handle kernel =>
    unfold ShmCall.call at hcall
    dsimp only at hcall
    split at hcall
    · rename_i hvalid
      cases hcall
      exact ⟨fun _ => trivial, fun _ => ⟨accounted_deleted h hvalid kernel, trivial⟩⟩
    · cases hcall
  | new key size kernel =>
    unfold ShmCall.call at hcall
    dsimp only at hcall
    split at hcall
    · rename_i hkeeps
      unfold ShmCall.Sound ShmCall.Fits
      dsimp only
      unfold rtapiShmemNew at hcall
      -- the ways the call can end: the key is known, no slot is free, no segment, no mapping, a new handle
      cases hfind : s.shmem.find key with
      | some i =>
        have hvalid := (find_some hfind).1
        rw [hfind] at hcall
        cases hcall
        rw [accounted_again_iff h hvalid]
        constructor
        · rintro ⟨hcount, hlarge⟩
          exact ⟨(holds_set _ { s.shmem.array i with count := Int.bmod ((s.shmem.array i).count + 1) (2 ^ 32) } rfl
            size).1 (hlarge i rfl), hcount⟩
        · rintro ⟨hlarge, hcount⟩
          refine ⟨hcount, fun j hj => ?_⟩
          cases hj
          exact (holds_set _ { s.shmem.array i with count := Int.bmod ((s.shmem.array i).count + 1) (2 ^ 32) } rfl
            size).2 hlarge
      | none =>
        rw [hfind] at hcall
        cases hfree : s.shmem.free with
        | none =>
          rw [hfree] at hcall
          cases hcall
          exact ⟨fun _ hok => (nomatch hok), fun _ => ⟨h, fun i hi => (nomatch hi)⟩⟩
        | some i =>
          have hunused := free_some hfree
          rw [hfree] at hcall
          cases hget : kernel.get with
          | error errno =>
            rw [hget] at hcall
            cases hcall
            exact ⟨fun _ hok => (nomatch hok), fun _ => ⟨h.setUnused hunused hunused, fun i hi => (nomatch hi)⟩⟩
          | ok segment =>
            obtain ⟨id, bytes⟩ := segment
            rw [hget] at hcall
            cases hattach : kernel.attach with
            | error errno =>
              rw [hattach] at hcall
              cases hcall
              exact ⟨fun _ hok => (nomatch hok), fun _ => ⟨h.setUnused hunused hunused, fun i hi => (nomatch hi)⟩⟩
            | ok mem =>
              rw [hattach] at hcall
              cases hcall
              have hafter := @accounted_attached s i key size h hunused _ bytes id
                (hkeeps.attach mem hattach)
              have hholds : Shmem.Holds
                  { array := Function.update s.shmem.array i
                      { valid := true, key := key, id := id, count := 1, size := size, mem := mem }
                    mapped := Function.update s.shmem.mapped mem (some bytes) } i size ↔ size ≤ bytes := by
                unfold Shmem.Holds
                dsimp only
                rw [Function.update_self, Function.update_self]
                constructor
                · rintro ⟨_, hbytes, hle⟩
                  cases hbytes
                  exact hle
                · exact fun hle => ⟨bytes, rfl, hle⟩
              constructor
              · rintro ⟨-, hlarge⟩ - id' bytes' hseg
                cases hseg
                exact hholds.1 (hlarge i rfl)
              · intro hfits
                refine ⟨hafter, fun j hj => ?_⟩
                cases hj
                exact hholds.2 (hfits rfl id bytes rfl)
    · cases hcall

end Table

/-- A new key fits whenever its size is an `int`. -/
theorem fits_of_int {s t : ShmRun} {key : Int} {size : Nat} {kernel : ShmKernel} {r : Except Int (Fin maxShm)}
    (hkeeps : kernel.Keeps s.shmem size) (hnew : s.shmem.find key = none) (hsize : size < 2 ^ 31) :
    (ShmCall.new key size kernel).Fits s r t := by
  have hasked : shmgetSize size = size := by
    unfold shmgetSize
    rw [bmod_of_int32 (by omega) (by omega)]
    omega
  unfold ShmCall.Fits
  dsimp only
  rw [hnew]
  intro _ id bytes hget
  have hle := hkeeps.get id bytes hget
  omega

/-- In a run of calls from the start, all blocks returned are large enough and all handles are accounted for after
every call, if and only if every call fits; a call for a new key with a size below 2^31 always does. -/
theorem shm_sound_iff (calls : List ShmCall) :
    (AllCalls ShmCall.call ShmCall.Sound calls startShm ↔ AllCalls ShmCall.call ShmCall.Fits calls startShm) ∧
      ∀ s r t key size kernel, (ShmCall.new key size kernel).call s = some (r, t) → s.shmem.find key = none →
      size < 2 ^ 31 →
        (ShmCall.new key size kernel).Fits s r t := by
  constructor
  · exact AllCalls.iff (I := ShmRun.Accounted) (fun s e r t h hcall => sound_iff_fits (e := e) h hcall)
      (fun s e r t _ _ hsound => hsound.1) startShm_accounted
  · intro s r t key size kernel hcall hnew hsize
    refine fits_of_int ?_ hnew hsize
    unfold ShmCall.call at hcall
    dsimp only at hcall
    split at hcall
    · assumption
    · cases hcall

/-- The table with one block of a page for the key 100. -/
def pageShm (uses : Int) : ShmRun where
  shmem :=
    { array := Function.update startShm.shmem.array 0 ⟨true, 100, 7, uses, 16, 65536⟩
      mapped := Function.update startShm.shmem.mapped 65536 (some 4096) }
  uses := Function.update startShm.uses 0 uses

theorem new_call {s : ShmRun} {t : Shmem} {i : Fin maxShm} {key : Int} {size : Nat} {kernel : ShmKernel}
    (hkeeps : kernel.Keeps s.shmem size) (h : rtapiShmemNew s.shmem key size kernel = (.ok i, t)) :
    ShmCall.call (.new key size kernel) s =
      some (.ok i, { shmem := t, uses := Function.update s.uses i (s.uses i + 1) }) := by
  unfold ShmCall.call
  dsimp only
  rw [if_pos hkeeps, h]

/-- The second call with the key asks for two pages and gets the block of one. -/
theorem shm_not_sound : ¬ AllCalls ShmCall.call ShmCall.Sound
    [.new 100 16 ⟨.ok (7, 4096), .ok 65536⟩, .new 100 8192 ⟨.ok (7, 8192), .ok 131072⟩] startShm := by
  have hfirst : ShmCall.call (.new 100 16 ⟨.ok (7, 4096), .ok 65536⟩) startShm = some (.ok 0, pageShm 1) :=
    new_call ⟨fun id bytes hget => by cases hget; decide, fun mem _ => rfl⟩ rfl
  have hsecond : ∃ t, ShmCall.call (.new 100 8192 ⟨.ok (7, 8192), .ok 131072⟩) (pageShm 1) = some (.ok 0, t) ∧
      t.shmem.array 0 = ⟨true, 100, 7, 2, 16, 65536⟩ ∧ t.shmem.mapped = (pageShm 1).shmem.mapped := by
    refine ⟨_, new_call ⟨fun id bytes hget => by cases hget; decide, fun mem hmem => by cases hmem; rfl⟩ rfl, ?_, rfl⟩
    rfl
  obtain ⟨t, hcall, harray, hmapped⟩ := hsecond
  intro h
  obtain ⟨bytes, hbytes, hle⟩ := ((h _ _ hfirst).2 _ _ hcall).1.2 0 rfl
  rw [harray, hmapped] at hbytes
  cases hbytes
  omega

end SoemMotion
