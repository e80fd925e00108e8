import SoemMotion.HalRegistry
import SoemMotion.Lib.Machine

/-!
# The memory of the HAL library

`shmalloc_up` takes memory from the bottom of what is free and `shmalloc_dn` from its top.  What they take lies in the
free memory and leaves the rest of it (`MemoryCall.run_takes`), so what later calls take is apart from it.
-/

namespace SoemMotion

open Lib

/-- `shmalloc_dn`: zero if there is no room. -/
def HalBlock.shmallocDn (size : Int) (b : HalBlock) : Int × HalBlock :=
  match HalPool.shmallocDn size b.shmemBot b.shmemTop with
  | none => (0, b)
  | some p => (p, { b with shmemTop := p })

inductive MemoryCall
  | up (size : Int)
  | dn (size : Int)

def MemoryCall.size : MemoryCall → Int
  | .up size => size
  | .dn size => size

def MemoryCall.run : MemoryCall → HalBlock → Int × HalBlock
  | .up size, b => b.shmallocUp size
  | .dn size, b => b.shmallocDn size

/-- The alignment of a block of `size` bytes. -/
def alignment (size : Int) : Int :=
  if 16 ≤ size then 16 else if 8 ≤ size then 8 else if 4 ≤ size then 4 else if size = 2 then 2 else 1

/-- The calls that were given memory, with its offset. -/
def memoryBlocks (calls : List MemoryCall) (b : HalBlock) : List (MemoryCall × Int) :=
  (calls.zip (answers MemoryCall.run calls b).1).filter fun x => x.2 ≠ 0

/-- The bytes of two blocks are apart. -/
def Apart (x y : MemoryCall × Int) : Prop := x.2 + x.1.size ≤ y.2 ∨ y.2 + y.1.size ≤ x.2

/-- The bounds of the free memory are in order, within the block. -/
def HalBlock.Bounded (b : HalBlock) : Prop := 256 ≤ b.shmemBot ∧ b.shmemBot ≤ b.shmemTop ∧ b.shmemTop ≤ halSize

theorem HalBlock.initHalData_bounded {b b₀ : HalBlock} {r : Int} (h : b.initHalData = .ok (r, b₀)) : b₀.Bounded := by
  unfold HalBlock.initHalData HalBlock.rtapiMutexGet at h
  split at h
  · cases h
  · cases h
    exact ⟨le_rfl, (by decide : (256 : Int) ≤ halSize), le_rfl⟩

theorem alignUp_spec (size bot : Int) : bot ≤ alignUp size bot ∧ alignUp size bot % alignment size = 0 := by
  unfold alignUp alignment
  split_ifs <;> omega

theorem alignDown_spec (size top : Int) : alignDown size top ≤ top ∧ alignDown size top % alignment size = 0 := by
  unfold alignDown alignment
  split_ifs <;> omega

/-- The call was given an aligned part of the free memory, and what is free after it is apart from that part. -/
structure Takes (c : MemoryCall) (b : HalBlock) (p : Int) (b' : HalBlock) : Prop where
  bounded : b'.Bounded
  inside : b.shmemBot ≤ p ∧ p + c.size ≤ b.shmemTop
  aligned : p % alignment c.size = 0
  within : b.shmemBot ≤ b'.shmemBot ∧ b'.shmemTop ≤ b.shmemTop
  apart : p + c.size ≤ b'.shmemBot ∨ b'.shmemTop ≤ p

variable {b : HalBlock}

/-- A call is refused and changes nothing, or takes memory. -/
theorem MemoryCall.run_takes (h : b.Bounded) {c : MemoryCall} (hc : 1 ≤ c.size) :
    c.run b = (0, b) ∨ (c.run b).1 ≠ 0 ∧ Takes c b (c.run b).1 (c.run b).2 := by
  obtain ⟨hbase, horder, htop⟩ := h
  cases c with
  | up size =>
    have hsize : 1 ≤ size := hc
    obtain ⟨hup, haligned⟩ := alignUp_spec size b.shmemBot
    unfold MemoryCall.run HalBlock.shmallocUp
    dsimp only
    split
    · exact .inl rfl
    · refine .inr ⟨by omega, ⟨?_, ?_, ?_⟩, ⟨hup, ?_⟩, haligned, ⟨?_, le_rfl⟩, .inl le_rfl⟩
      · show 256 ≤ alignUp size b.shmemBot + size
        omega
      · show alignUp size b.shmemBot + size ≤ b.shmemTop
        omega
      · exact htop
      · show alignUp size b.shmemBot + size ≤ b.shmemTop
        omega
      · show b.shmemBot ≤ alignUp size b.shmemBot + size
        omega
  | dn size =>
    have hsize : 1 ≤ size := hc
    obtain ⟨hdown, haligned⟩ := alignDown_spec size (b.shmemTop - size)
    unfold MemoryCall.run HalBlock.shmallocDn HalPool.shmallocDn
    dsimp only
    split
    · exact .inl rfl
    · rename_i p hp
      split at hp
      · cases hp
      · cases hp
        refine .inr ⟨?_, ⟨hbase, ?_, ?_⟩, ⟨?_, ?_⟩, haligned, ⟨le_rfl, ?_⟩, .inr le_rfl⟩
        · show alignDown size (b.shmemTop - size) ≠ 0
          omega
        · show b.shmemBot ≤ alignDown size (b.shmemTop - size)
          omega
        · show alignDown size (b.shmemTop - size) ≤ halSize
          omega
        · show b.shmemBot ≤ alignDown size (b.shmemTop - size)
          omega
        · show alignDown size (b.shmemTop - size) + size ≤ b.shmemTop
          omega
        · show alignDown size (b.shmemTop - size) ≤ b.shmemTop
          omega

/-- What some calls take of the free memory: aligned blocks inside it, each apart from the others. -/
structure TakesAll (blocks : List (MemoryCall × Int)) (b b' : HalBlock) : Prop where
  bounded : b'.Bounded
  inside : ∀ x ∈ blocks, (b.shmemBot ≤ x.2 ∧ x.2 + x.1.size ≤ b.shmemTop) ∧ x.2 % alignment x.1.size = 0
  apart : blocks.Pairwise Apart

theorem memoryBlocks_takes (calls : List MemoryCall) (h : b.Bounded) (hsizes : ∀ c ∈ calls, 1 ≤ c.size) :
    TakesAll (memoryBlocks calls b) b (answers MemoryCall.run calls b).2 := by
  induction calls generalizing b with
  | nil => exact ⟨h, fun x hx => absurd hx List.not_mem_nil, List.Pairwise.nil⟩
  | cons c calls ih =>
    have hc := hsizes c List.mem_cons_self
    have hrest := fun c' hc' => hsizes c' (List.mem_cons_of_mem c hc')
    have hblocks : memoryBlocks (c :: calls) b = if (c.run b).1 ≠ 0 then (c, (c.run b).1) ::
        memoryBlocks calls (c.run b).2
        else memoryBlocks calls (c.run b).2 := by
      unfold memoryBlocks
      show List.filter _ ((c, (c.run b).1) :: calls.zip (answers MemoryCall.run calls (c.run b).2).1) = _
      rw [List.filter_cons]
      simp only [decide_eq_true_eq]
    rcases MemoryCall.run_takes h hc with hnone | ⟨hne, htakes⟩
    · have htail := ih h hrest
      rw [hblocks, hnone, if_neg (by simp)]
      show TakesAll _ b (answers MemoryCall.run calls (c.run b).2).2
      rw [hnone]
      exact htail
    · obtain ⟨hbounded, hinside, hapart⟩ := ih htakes.bounded hrest
      have hwithin := htakes.within
      rw [hblocks, if_pos hne]
      refine ⟨hbounded, fun x hx => ?_, List.pairwise_cons.2 ⟨fun x hx => ?_, hapart⟩⟩
      · rcases List.mem_cons.1 hx with rfl | hx
        · exact ⟨htakes.inside, htakes.aligned⟩
        · obtain ⟨⟨hlow, hhigh⟩, haligned⟩ := hinside x hx
          exact ⟨⟨hwithin.1.trans hlow, hhigh.trans hwithin.2⟩, haligned⟩
      · obtain ⟨⟨hlow, hhigh⟩, -⟩ := hinside x hx
        rcases htakes.apart with hbelow | habove
        · exact .inl (hbelow.trans hlow)
        · exact .inr (hhigh.trans habove)

/-- After any calls from what `init_hal_data` leaves: the blocks they were given are apart, inside the memory after the
`hal_data_t` and aligned; the bounds of the free memory are in order; and the next call changes nothing if it is
refused. -/
theorem hal_memory_disjoint {b₀ : HalBlock} {r : Int} (hinit : b.initHalData = .ok (r, b₀)) {calls : List MemoryCall}
    (hsizes : ∀ c ∈ calls, 1 ≤ c.size) :
    (memoryBlocks calls b₀).Pairwise Apart ∧
      (∀ x ∈ memoryBlocks calls b₀, (256 ≤ x.2 ∧ x.2 + x.1.size ≤ halSize) ∧ x.2 % alignment x.1.size = 0) ∧
      (answers MemoryCall.run calls b₀).2.shmemBot ≤ (answers MemoryCall.run calls b₀).2.shmemTop ∧
      ∀ c : MemoryCall, 1 ≤ c.size → (c.run (answers MemoryCall.run calls b₀).2).1 = 0 →
        (c.run (answers MemoryCall.run calls b₀).2).2 = (answers MemoryCall.run calls b₀).2 := by
  have hstart := HalBlock.initHalData_bounded hinit
  obtain ⟨hbounded, hinside, hapart⟩ := memoryBlocks_takes calls hstart hsizes
  refine ⟨hapart, fun x hx => ?_, hbounded.2.1, fun c hc hzero => ?_⟩
  · obtain ⟨⟨hlow, hhigh⟩, haligned⟩ := hinside x hx
    exact ⟨⟨hstart.1.trans hlow, hhigh.trans hstart.2.2⟩, haligned⟩
  · rcases MemoryCall.run_takes hbounded hc with hnone | ⟨hne, -⟩
    · rw [hnone]
    · exact absurd hzero hne

/-- Memory is taken from both ends until there is no more. -/
theorem hal_memory_disjoint_three : (memoryBlocks [.up 5, .dn 24, .up 1048290] zeroBlock.initialised).Pairwise Apart :=
  (hal_memory_disjoint (HalBlock.initHalData_eq (b := zeroBlock) rfl) (by decide)).1

end SoemMotion
