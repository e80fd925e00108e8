import SoemMotion.HalUsage

/-!
# The position of a function in a thread

`hal_add_funct_to_thread` counts its position from the start of the thread's list, or from its end, and gives up when
the count meets the root: the place is the one that `slot` says, if there is one.
-/

namespace SoemMotion

open Lib HalBlock

/-- How many of `n` entries come before a new one at `position`, if there is such a place. -/
def slot (n : Nat) (position : Int) : Option Nat :=
  if 0 < position then if position ≤ n + 1 then some (position - 1).toNat else none
  else if -(n + 1 : Int) ≤ position then some (n + 1 + position).toNat else none

theorem slot_eq_some {n i : Nat} {position : Int} (hne : position ≠ 0) (h : slot n position = some i) :
    i ≤ n ∧ (0 < position → position = i + 1) ∧ (position < 0 → position = -((n - i : Nat) + 1 : Int)) := by
  unfold slot at h
  split at h
  · split at h <;> cases h
    omega
  · split at h <;> cases h
    omega

theorem slot_isSome_iff {n : Nat} {position : Int} (hne : position ≠ 0) :
    (slot n position).isSome = true ↔
      (1 ≤ position ∧ position ≤ n + 1) ∨ (-(n + 1 : Int) ≤ position ∧ position ≤ -1) := by
  unfold slot
  split
  · split
    · exact ⟨fun _ => by omega, fun _ => rfl⟩
    · exact ⟨fun hno => absurd hno Bool.false_ne_true, fun _ => by omega⟩
  · split
    · exact ⟨fun _ => by omega, fun _ => rfl⟩
    · exact ⟨fun hno => absurd hno Bool.false_ne_true, fun _ => by omega⟩

/-! ### The walks -/

section Walks

variable {l : Links Int} {root p : Int} {es as bs : List Int}

/-- The steps along a list that do not pass its root. -/
theorem walk_ring (h : Ring l root (as ++ bs)) {xs : List Int} (hp : root :: as = xs ++ [p]) (k : Nat) :
    walk l.next root k p = (p :: bs)[k]? := by
  induction bs generalizing as xs p k with
  | nil =>
    have hnext : l.next p = root := h.next_eq hp rfl
    cases k with
    | zero => rfl
    | succ k =>
      unfold walk
      rw [if_pos hnext]
      rfl
  | cons b bs ih =>
    have hnext : l.next p = b := h.next_eq hp rfl
    have hb : b ≠ root := by
      rintro rfl
      exact (List.nodup_cons.1 h.nodup).1 (List.mem_append_right _ List.mem_cons_self)
    have hplace : root :: (as ++ [b]) = (root :: as) ++ [b] := rfl
    have hrest : Ring l root ((as ++ [b]) ++ bs) := by
      rw [List.append_assoc]
      exact h
    cases k with
    | zero => rfl
    | succ k =>
      unfold walk
      rw [hnext, if_neg hb, ih hrest hplace, List.getElem?_cons_succ]

theorem walk_next (h : Ring l root es) (k : Nat) : walk l.next root k root = (root :: es)[k]? :=
  walk_ring (show Ring l root ([] ++ es) from h) (show [root] = [] ++ [root] from rfl) k

theorem walk_prev (h : Ring l root es) (k : Nat) : walk l.prev root k root = (root :: es.reverse)[k]? :=
  walk_next h.reverse k

end Walks

variable {b : HalBlock} {root : Int} {es : List Int}

/-- The entry to insert after, if there is a place. -/
theorem insertionPoint_eq (h : Ring b.links root es) {position : Int} (hne : position ≠ 0) :
    b.insertionPoint root position = (slot es.length position).bind fun i => (root :: es)[i]? := by
  unfold HalBlock.insertionPoint slot
  split
  · rw [walk_next h]
    split
    · have hindex : position.natAbs - 1 = (position - 1).toNat := by omega
      rw [hindex, Option.bind_some]
    · exact List.getElem?_eq_none (by rw [List.length_cons]; omega)
  · rw [walk_prev h]
    split
    · have hlt : position.natAbs - 1 < (es ++ [root]).length := by
        rw [List.length_append, List.length_singleton]
        omega
      have hindex : (es ++ [root]).length - 1 - (position.natAbs - 1) = (es.length + 1 + position).toNat := by
        rw [List.length_append, List.length_singleton]
        omega
      have hback : root :: es.reverse = (es ++ [root]).reverse := by
        rw [List.reverse_append, List.reverse_singleton]; rfl
      rw [hback, List.getElem?_reverse hlt, hindex, ← List.getElem?_map, h.prev, Option.bind_some]
    · rw [List.getElem?_eq_none (by rw [List.length_cons, List.length_reverse]; omega)]
      rfl

/-- The place of an entry in a list, with the entry before it. -/
theorem place_at (root : Int) {i : Nat} (hi : i ≤ es.length) : ∃ entry, (root :: es)[i]? = some entry ∧
    root :: es.take i = (root :: es).take i ++ [entry] := by
  have hlt : i < (root :: es).length := by
    rw [List.length_cons]
    omega
  refine ⟨(root :: es)[i], List.getElem?_eq_getElem hlt, ?_⟩
  rw [List.take_concat_get' _ _ hlt]
  rfl

/-- What `hal_add_funct_to_thread` finds, past its checks. -/
theorem addPlace_eq {functName threadName : CString} {funct thread position : Int}
    (hlock : b.lock &&& halLockConfig = 0)
    (hfunct : b.halprFindFunctByName functName = some funct)
    (hthread : b.halprFindThreadByName threadName = some thread)
    (husers : (b.functs.cell funct).reentrant ≠ 0 ∨ (b.functs.cell funct).users = 0)
    (hfp : (b.functs.cell funct).usesFp = 0 ∨ (b.threads.cell thread).usesFp ≠ 0) (hne : position ≠ 0) :
    b.addPlace (some functName) (some threadName) position =
      match b.insertionPoint (functList thread) position with
      | none => .error (-einval)
      | some entry => .ok (funct, thread, entry) := by
  have hfree : ¬ (0 < (b.functs.cell funct).users ∧ (b.functs.cell funct).reentrant = 0) := by
    rintro ⟨hpos, hre⟩
    rcases husers with hno | hzero
    · exact hno hre
    · omega
  have hfits : ¬ ((b.functs.cell funct).usesFp ≠ 0 ∧ (b.threads.cell thread).usesFp = 0) := by
    rintro ⟨hfunctFp, hthreadFp⟩
    rcases hfp with hzero | hno
    · exact hfunctFp hzero
    · exact hno hthreadFp
  unfold addPlace
  rw [if_neg (not_not.2 hlock), if_neg hne]
  dsimp only
  rw [hfunct]
  dsimp only
  rw [if_neg hfree, hthread]
  dsimp only
  exact if_neg hfits

/-! ### The place of the new entry -/

/-- The entry `new` for the function has come into the thread's list at `position`; all other entries are as they
were. -/
structure HalBlock.Inserted (b b' : HalBlock) (thread funct position new : Int) : Prop where
  place : ∃ as bs, b.entriesOf (functList thread) = as ++ bs ∧ b'.entriesOf (functList thread) = as ++ new :: bs ∧
    (0 < position → position = as.length + 1) ∧ (position < 0 → position = -(bs.length + 1 : Int))
  entry : b'.entries new = ⟨(b.functs.cell funct).arg, (b.functs.cell funct).funct, funct⟩
  threads : ∀ t ∈ b.threads.list, t ≠ thread → b'.entriesOf (functList t) = b.entriesOf (functList t)
  others : ∀ t ∈ b.threads.list, ∀ e ∈ b.entriesOf (functList t), b'.entries e = b.entries e

theorem addFunct_inserted (h : b.Sound) {functName threadName : Option CString}
    {position funct thread entry : Int} {i : Nat}
    (hne : position ≠ 0) (hroom : b.noEntry = false)
    (hplace : b.addPlace functName threadName position = .ok (funct, thread, entry))
    (hslot : slot (b.entriesOf (functList thread)).length position = some i)
    (hentry : (functList thread :: b.entriesOf (functList thread))[i]? = some entry) :
    ∃ b' new, b.halAddFunctToThread functName threadName position = .ok (0, b') ∧
      b.Inserted b' thread funct position new := by
  obtain ⟨-, ht, -, -⟩ := addPlace_ok hplace
  obtain ⟨es, hes⟩ := h.entries
  have hold : ∀ t ∈ b.threads.list, b.entriesOf (functList t) = es (functList t) :=
    fun t ht => hes.entriesOf_eq (mem_ringRoots (List.mem_append_left _ ht))
  obtain ⟨hi, hfront, hback⟩ := slot_eq_some hne hslot
  obtain ⟨entry', hentry', hp⟩ := place_at (functList thread) hi
  rw [hentry] at hentry'
  cases hentry'
  have hsplit : es (functList thread) = (b.entriesOf (functList thread)).take i ++
      (b.entriesOf (functList thread)).drop i := by
    rw [List.take_append_drop, hold thread ht]
  -- the new entry comes after the first `i` of them
  obtain ⟨new, top, links, es', hrun, -, hlinked, hthis, hother⟩ := h.links hes hplace hroom hsplit hp
  obtain ⟨b', hb'⟩ : ∃ b' : HalBlock, b' = { b with
      shmemTop := top, links := links
      entries := Function.update b.entries new ⟨(b.functs.cell funct).arg, (b.functs.cell funct).funct, funct⟩
      functs := b.functs.set funct fun p => { p with users := p.users + 1 } } := ⟨_, rfl⟩
  have hok : b'.EntriesIn b.functs.list b.threads.list b.threads.free es' := by
    rw [hb']
    exact hlinked
  have hnew : ∀ t ∈ b.threads.list, b'.entriesOf (functList t) = es' (functList t) :=
    fun t ht => hok.entriesOf_eq (mem_ringRoots (List.mem_append_left _ ht))
  have hentries : b'.entries =
      Function.update b.entries new ⟨(b.functs.cell funct).arg, (b.functs.cell funct).funct, funct⟩ := by rw [hb']
  rw [← hb'] at hrun
  refine ⟨b', new, hrun, ⟨_, _, (List.take_append_drop i _).symm, (hnew thread ht).trans hthis, fun hpos => ?_,
    fun hneg => ?_⟩, ?_, fun t htmem hne => ?_, fun t htmem e he => ?_⟩
  · rw [List.length_take, Nat.min_eq_left hi]
    exact hfront hpos
  · rw [List.length_drop]
    exact hback hneg
  · rw [hentries, Function.update_self]
  · rw [hnew t htmem, (hother t htmem).1 hne, hold t htmem]
  · rw [hentries, Function.update_of_ne]
    rintro rfl
    rw [hold t htmem] at he
    exact (hother t htmem).2 he

/-- In every block that a run from an empty registry reaches, an existing function that may be added to an existing
thread is added, while there is memory, exactly if its position is one of the list and of a new entry, and it comes to
that position. -/
theorem addFunct_position {b₀ : HalBlock} (h : b₀.Empty) (hrun : Reaches blockStep b₀ b)
    {functName threadName : CString}
    {funct thread : Int} (hlock : b.lock &&& halLockConfig = 0) (hfunct : b.halprFindFunctByName functName = some funct)
    (hthread : b.halprFindThreadByName threadName = some thread)
    (husers : (b.functs.cell funct).reentrant ≠ 0 ∨ (b.functs.cell funct).users = 0)
    (hfp : (b.functs.cell funct).usesFp = 0 ∨ (b.threads.cell thread).usesFp ≠ 0) (hroom : b.noEntry = false)
    (position : Int) :
    ∃ r b', b.halAddFunctToThread (some functName) (some threadName) position = .ok (r, b') ∧
      (r = 0 ↔ (1 ≤ position ∧ position ≤ (b.entriesOf (functList thread)).length + 1) ∨
        (-((b.entriesOf (functList thread)).length + 1 : Int) ≤ position ∧ position ≤ -1)) ∧
      (r = 0 → ∃ new, b.Inserted b' thread funct position new) ∧ (r ≠ 0 → b' = b) := by
  have hsound := h.reaches hrun
  have hring : Ring b.links (functList thread) (b.entriesOf (functList thread)) := by
    obtain ⟨es, hes⟩ := hsound.entries
    have hroot : functList thread ∈ ringRoots (b.threads.list ++ b.threads.free) :=
      mem_ringRoots (List.mem_append_left _ (halprFindThreadByName_mem hthread))
    rw [hes.entriesOf_eq hroot]
    exact hes.rings.ring _ hroot
  -- a position without a place
  have hfails : b.addPlace (some functName) (some threadName) position = .error (-einval) →
      b.halAddFunctToThread (some functName) (some threadName) position = .ok (-einval, b) := by
    intro herror
    rw [halAddFunctToThread_eq hsound.mutex, herror]
  have hrefused : (-einval : Int) ≠ 0 := by decide
  by_cases hne : position = 0
  · subst hne
    refine ⟨-einval, b, hfails ?_, ⟨fun hzero => absurd hzero hrefused, fun hrange => ?_⟩,
      fun hzero => absurd hzero hrefused, fun _ => rfl⟩
    · unfold addPlace
      rw [if_neg (not_not.2 hlock), if_pos rfl]
    · omega
  · have hplace := addPlace_eq hlock hfunct hthread husers hfp hne
    have hrange := slot_isSome_iff (n := (b.entriesOf (functList thread)).length) hne
    rw [insertionPoint_eq hring hne] at hplace
    cases hslot : slot (b.entriesOf (functList thread)).length position with
    | none =>
      rw [hslot] at hplace hrange
      refine ⟨-einval, b, hfails hplace, ⟨fun hzero => absurd hzero hrefused, fun hin => ?_⟩,
        fun hzero => absurd hzero hrefused, fun _ => rfl⟩
      exact absurd (hrange.2 hin) Bool.false_ne_true
    | some i =>
      obtain ⟨hi, -, -⟩ := slot_eq_some hne hslot
      obtain ⟨entry, hentry, -⟩ := place_at (functList thread) hi
      rw [hslot, Option.bind_some, hentry] at hplace
      obtain ⟨b', new, hcall, hinserted⟩ := addFunct_inserted hsound hne hroom hplace hslot hentry
      rw [hslot] at hrange
      exact ⟨0, b', hcall, ⟨fun _ => hrange.1 rfl, fun _ => rfl⟩, fun _ => ⟨new, hinserted⟩, fun hno => absurd rfl hno⟩

/-- A component with a reentrant function and a thread, to which the function is added once. -/
def positionCalls : List BlockCall :=
  [.init 1 (some [97]), .exportFunct [102] 4096 8192 0 1 1, .createThread ⟨2, 3, 0⟩ [116] 1000000 1 0,
    .addFunct (some [102]) (some [116]) 1]

/-- The function of these calls may be added to their thread, which has one entry. -/
def positionReady (b : HalBlock) : Bool :=
  (b.halprFindFunctByName [102]).any fun funct => (b.halprFindThreadByName [116]).any fun thread =>
    b.lock &&& halLockConfig == 0 && (b.functs.cell funct).reentrant != 0 && (b.functs.cell funct).usesFp == 0 &&
      !b.noEntry && (b.entriesOf (functList thread)).length == 1

/-- The function comes to the end of the list at position -1, and at position 3 there is no place. -/
theorem addFunct_position_twice : ∃ (b : HalBlock) (funct thread : Int), (b.entriesOf (functList thread)).length = 1 ∧
    (∃ b' new, b.halAddFunctToThread (some [102]) (some [116]) (-1) = .ok (0, b') ∧
    b.Inserted b' thread funct (-1) new) ∧
    ∃ r, r ≠ 0 ∧ b.halAddFunctToThread (some [102]) (some [116]) 3 = .ok (r, b) := by
  have hready : (runCalls BlockCall.call positionCalls zeroBlock.initialised).any
      (fun x => positionReady x.2) = true := by
    decide +kernel
  obtain ⟨⟨rs, b⟩, hrun, hready⟩ := (Option.any_eq_true _ _).1 hready
  obtain ⟨funct, hfunct, hready⟩ := (Option.any_eq_true _ _).1 hready
  obtain ⟨thread, hthread, hready⟩ := (Option.any_eq_true _ _).1 hready
  simp only [Bool.and_eq_true, beq_iff_eq, bne_iff_ne, Bool.not_eq_true'] at hready
  obtain ⟨⟨⟨⟨hlock, hre⟩, hfp⟩, hroom⟩, hlen⟩ := hready
  have hin : ∀ c ∈ positionCalls, c.InRun := by
    intro c hc
    simp only [positionCalls, List.mem_cons, List.not_mem_nil, or_false] at hc
    rcases hc with rfl | rfl | rfl | rfl
    all_goals exact trivial
  have hreach : Reaches blockStep zeroBlock.initialised b :=
    runCalls_reaches (fun b c r b' hc hcall => ⟨hin c hc, r, BlockCall.call_eq_some.1 hcall⟩) hrun
  refine ⟨b, funct, thread, hlen, ?_, ?_⟩
  · obtain ⟨r, b', hcall, hzero, hdone, -⟩ :=
      addFunct_position zeroBlock_empty hreach hlock hfunct hthread (.inl hre) (.inl hfp) hroom (-1)
    have hr : r = 0 := hzero.2 (by omega)
    obtain ⟨new, hnew⟩ := hdone hr
    rw [hr] at hcall
    exact ⟨b', new, hcall, hnew⟩
  · obtain ⟨r, b', hcall, hzero, -, hsame⟩ :=
      addFunct_position zeroBlock_empty hreach hlock hfunct hthread (.inl hre) (.inl hfp) hroom 3
    have hr : r ≠ 0 := fun hr => by
      have := hzero.1 hr
      omega
    rw [hsame hr] at hcall
    exact ⟨r, hr, hcall⟩

end SoemMotion
