import Mathlib.Data.List.Nodup
import Mathlib.Order.Monotone.Basic

/-!
# Reading a block between two counts

A writer counts `head` up before it updates a block and sets `tail` to `head` after the update.  A reader that runs at
the same time copies the block place by place, the head first and the tail behind the data, and keeps the copy when the
two counts of the copy agree, else it tries again.  The counts have eight bits.

The order of the copy leaves two updates to a copy that is kept: the one in progress when it starts, and the one in
progress when it ends.  When neither is there, the copy is the block as it was in between.
-/

namespace SoemMotion.Lib

variable {ι σ : Type*}

/-- A block of data and its counts. -/
structure Counted (σ : Type*) where
  head : UInt8
  data : σ
  tail : UInt8

/-! ### The writer -/

/-- The block, and whether an update is in progress. -/
structure Writer (σ : Type*) where
  block : Counted σ
  busy : Bool

/-- One step of the writer, or none. -/
inductive WriterStep : Writer σ → Writer σ → Prop
  | rest (w : Writer σ) : WriterStep w w
  | start (b : Counted σ) : WriterStep ⟨b, false⟩ ⟨{ b with head := b.head + 1 }, true⟩
  | write (b : Counted σ) (d : σ) : WriterStep ⟨b, true⟩ ⟨{ b with data := d }, true⟩
  | finish (b : Counted σ) : WriterStep ⟨b, true⟩ ⟨{ b with tail := b.head }, false⟩

/-- The block over time, from a moment on when no update is in progress. -/
structure WriterRun (w : Nat → Writer σ) : Prop where
  idle : (w 0).busy = false
  even : (w 0).block.tail = (w 0).block.head
  step : ∀ n, WriterStep (w n) (w (n + 1))

/-- How many updates have begun. -/
def begun (w : Nat → Writer σ) : Nat → Nat
  | 0 => 0
  | n + 1 => begun w n + if (w n).busy = false ∧ (w (n + 1)).busy = true then 1 else 0

/-- How many updates have ended. -/
def ended (w : Nat → Writer σ) : Nat → Nat
  | 0 => 0
  | n + 1 => ended w n + if (w n).busy = true ∧ (w (n + 1)).busy = false then 1 else 0

theorem begun_mono (w : Nat → Writer σ) : Monotone (begun w) :=
  monotone_nat_of_le_succ fun n => by simp [begun]

theorem ended_mono (w : Nat → Writer σ) : Monotone (ended w) :=
  monotone_nat_of_le_succ fun n => by simp [ended]

namespace WriterRun

variable {w : Nat → Writer σ}

theorem begun_eq (h : WriterRun w) (n : Nat) : begun w n = ended w n + if (w n).busy then 1 else 0 := by
  induction n with
  | zero => simp [begun, ended, h.idle]
  | succ n ih =>
    rw [begun, ended, ih]
    cases hb : (w n).busy <;> cases hb' : (w (n + 1)).busy <;> simp

/-- The head counts the updates that have begun. -/
theorem head_eq (h : WriterRun w) (n : Nat) :
    (w n).block.head.toNat = ((w 0).block.head.toNat + begun w n) % 256 := by
  induction n with
  | zero => simp [begun]
  | succ n ih =>
    have hstep := h.step n
    rw [begun]
    generalize hw : w n = x at hstep ih
    generalize hw' : w (n + 1) = y at hstep
    cases hstep with
    | rest => cases hb : x.busy <;> simp [ih]
    | start b => simp [UInt8.toNat_add, ih]; omega
    | write b d => simp [ih]
    | finish b => simp [ih]

/-- The tail counts those that have ended. -/
theorem tail_eq (h : WriterRun w) (n : Nat) :
    (w n).block.tail.toNat = ((w 0).block.head.toNat + ended w n) % 256 := by
  induction n with
  | zero => simp [ended, h.even]
  | succ n ih =>
    have hstep := h.step n
    have hhead := h.head_eq n
    have hbegun := h.begun_eq n
    rw [ended]
    generalize hw : w n = x at hstep ih hhead hbegun
    generalize hw' : w (n + 1) = y at hstep
    cases hstep with
    | rest => cases hb : x.busy <;> simp [ih]
    | start b => simp [ih]
    | write b d => simp [ih]
    | finish b =>
      simp at hbegun
      simp [hhead, hbegun]

/-- An old head and a new tail agree just when the updates that had begun then, and no others, have ended by now. -/
theorem counts_agree (h : WriterRun w) {n m : Nat} (hnm : n ≤ m) (hfew : begun w m ≤ begun w n + 255) :
    (w n).block.head = (w m).block.tail ↔ ended w m = begun w n := by
  have hn := h.begun_eq n
  have hm := h.begun_eq m
  have hended := ended_mono w hnm
  rw [← UInt8.toNat_inj, h.head_eq, h.tail_eq]
  split at hn <;> split at hm <;> omega

/-- Without an update from one moment to another, the data stay the same. -/
theorem data_eq (h : WriterRun w) {n m : Nat} (hnm : n ≤ m) (hidle : (w n).busy = false)
    (hnone : begun w m = begun w n) : (w m).busy = false ∧ (w m).block.data = (w n).block.data := by
  induction m, hnm using Nat.le_induction with
  | base => exact ⟨hidle, rfl⟩
  | succ m hnm ih =>
    have hstep := h.step m
    have hle := begun_mono w hnm
    have hkept : begun w m = begun w n := by
      have hle' : begun w m ≤ begun w (m + 1) := begun_mono w (Nat.le_succ m)
      omega
    obtain ⟨hbusy, hdata⟩ := ih hkept
    rw [begun, hkept] at hnone
    generalize w m = x at hstep hbusy hdata hnone
    generalize w (m + 1) = y at hstep hnone
    cases hstep with
    | rest => exact ⟨hbusy, hdata⟩
    | start b => simp at hnone
    | write b d => cases hbusy
    | finish b => cases hbusy

/-- Between two moments with no update in progress, and none over in between, the data stay the same. -/
theorem data_between (h : WriterRun w) {n m l : Nat} (hnm : n ≤ m) (hml : m ≤ l) (hn : (w n).busy = false)
    (hl : (w l).busy = false) (hnone : ended w l = begun w n) : (w m).block.data = (w n).block.data := by
  have hlast := h.begun_eq l
  have hle := begun_mono w hnm
  have hle' := begun_mono w hml
  simp [hl] at hlast
  exact (h.data_eq hnm hn (by omega)).2

end WriterRun

/-! ### The reader -/

/-- The fields of the data, each copied from one record to another by itself. -/
structure Fields (ι σ : Type*) where
  copy : ι → σ → σ → σ
  copy_copy : ∀ i d e s, copy i d (copy i e s) = copy i d s
  copy_comm : ∀ i j, i ≠ j → ∀ d e s, copy i d (copy j e s) = copy j e (copy i d s)

/-- The records have the field in common. -/
def Fields.Same (F : Fields ι σ) (i : ι) (d s : σ) : Prop := F.copy i d s = s

/-- What is copied at once. -/
inductive Place (ι : Type*)
  | head
  | field (i : ι)
  | tail

/-- The copy `s` after the place has been copied from the block. -/
def Counted.copy (F : Fields ι σ) (p : Place ι) (b s : Counted σ) : Counted σ :=
  match p with
  | .head => { s with head := b.head }
  | .field i => { s with data := F.copy i b.data s.data }
  | .tail => { s with tail := b.tail }

/-- The places one after the other, number `k` at the time `t k`. -/
def copyPlaces (F : Fields ι σ) (w : Nat → Writer σ) : List (Place ι) → (Nat → Nat) → Counted σ → Counted σ
  | [], _, s => s
  | p :: ps, t, s => copyPlaces F w ps (fun k => t (k + 1)) (Counted.copy F p (w (t 0)).block s)

/-- The head, the fields up to the tail, the tail, and the fields behind it. -/
def places (before after : List ι) : List (Place ι) :=
  .head :: (before.map .field ++ .tail :: after.map .field)

/-- At most the given number of copies, number `n` at the times `t n`, until the counts of one agree. -/
def splitRead (F : Fields ι σ) (w : Nat → Writer σ) (ps : List (Place ι)) :
    Nat → (Nat → Nat → Nat) → Counted σ → Bool × Counted σ
  | 0, _, s => (false, s)
  | n + 1, t, s =>
    let s := copyPlaces F w ps (t 0) s
    if s.head = s.tail then (true, s) else splitRead F w ps n (fun k => t (k + 1)) s

section Reader

variable {F : Fields ι σ} {w : Nat → Writer σ}

/-- The copy has the place of the block. -/
def Reads (F : Fields ι σ) (p : Place ι) (b s : Counted σ) : Prop :=
  match p with
  | .head => s.head = b.head
  | .field i => F.Same i b.data s.data
  | .tail => s.tail = b.tail

theorem reads_copy (p : Place ι) (b s : Counted σ) : Reads F p b (Counted.copy F p b s) := by
  cases p with
  | head => rfl
  | field i => exact F.copy_copy i _ _ _
  | tail => rfl

/-- What has been copied stays when another place is. -/
theorem Reads.copy {p q : Place ι} {b s : Counted σ} (h : Reads F p b s) (hpq : p ≠ q) (c : Counted σ) :
    Reads F p b (Counted.copy F q c s) := by
  cases p with
  | head => cases q <;> first | exact h | exact absurd rfl hpq
  | tail => cases q <;> first | exact h | exact absurd rfl hpq
  | field i =>
    cases q with
    | head => exact h
    | tail => exact h
    | field j =>
      have hij : i ≠ j := fun hij => hpq (congrArg Place.field hij)
      exact (F.copy_comm i j hij _ _ _).trans (congrArg (F.copy j c.data) h)

theorem Reads.copyPlaces {p : Place ι} {b : Counted σ} {ps : List (Place ι)} (hp : p ∉ ps) :
    ∀ {t : Nat → Nat} {s : Counted σ}, Reads F p b s → Reads F p b (copyPlaces F w ps t s) := by
  induction ps with
  | nil => exact fun h => h
  | cons q ps ih =>
    intro t s h
    simp only [List.mem_cons, not_or] at hp
    exact ih hp.2 (h.copy hp.1 _)

/-- Each place is copied from the block of its own time. -/
theorem copyPlaces_reads {ps : List (Place ι)} (hps : ps.Nodup) :
    ∀ {t : Nat → Nat} {s : Counted σ} {k : Nat} {p : Place ι}, ps[k]? = some p →
      Reads F p (w (t k)).block (copyPlaces F w ps t s) := by
  induction ps with
  | nil => simp
  | cons q ps ih =>
    intro t s k p hk
    rw [List.nodup_cons] at hps
    cases k with
    | zero =>
      obtain rfl : q = p := by simpa using hk
      exact (reads_copy q _ s).copyPlaces hps.1
    | succ k => exact ih hps.2 (by simpa using hk)

variable {before after : List ι}

theorem places_nodup (h : (before ++ after).Nodup) : (places before after).Nodup := by
  have hinj : Function.Injective (Place.field : ι → Place ι) := fun i j hij => by cases hij; rfl
  have hall := h.map hinj
  rw [List.map_append, List.nodup_append] at hall
  simp only [places, List.nodup_cons, List.nodup_append, List.mem_append, List.mem_cons, List.mem_map]
  refine ⟨by simp, hall.1, ⟨by simp, hall.2.1⟩, ?_⟩
  rintro _ ⟨i, hi, rfl⟩ q (rfl | ⟨j, hj, rfl⟩)
  · simp
  · exact hall.2.2 _ (List.mem_map_of_mem hi) _ (List.mem_map_of_mem hj)

theorem places_field {k : Nat} {i : ι} (hk : before[k]? = some i) :
    (places before after)[k + 1]? = some (.field i) := by
  obtain ⟨hlt, hget⟩ := List.getElem?_eq_some_iff.1 hk
  simp [places, List.getElem?_append, hlt, hget]

theorem places_tail : (places before after)[before.length + 1]? = some .tail := by
  simp [places]

section Counts

variable {w : Nat → Writer σ} (h : WriterRun w) (hnodup : (places before after).Nodup)

include h hnodup

/-- The counts of a copy agree just when the updates that had begun with it, and no others, were over at its end. -/
theorem copyPlaces_agree {t : Nat → Nat} (ht : Monotone t)
    (hfew : begun w (t (before.length + 1)) ≤ begun w (t 0) + 255) (s : Counted σ) :
    (copyPlaces F w (places before after) t s).head = (copyPlaces F w (places before after) t s).tail ↔
      ended w (t (before.length + 1)) = begun w (t 0) := by
  have hhead : Reads F .head (w (t 0)).block (copyPlaces F w (places before after) t s) := copyPlaces_reads hnodup rfl
  have htail : Reads F .tail (w (t (before.length + 1))).block (copyPlaces F w (places before after) t s) :=
    copyPlaces_reads hnodup places_tail
  rw [show (copyPlaces F w (places before after) t s).head = _ from hhead,
    show (copyPlaces F w (places before after) t s).tail = _ from htail]
  exact h.counts_agree (ht (Nat.zero_le _)) hfew

theorem splitRead_ok_iff {tries : Nat} :
    ∀ {t : Nat → Nat → Nat} {s : Counted σ}, (∀ n, Monotone (t n)) →
      (∀ n, begun w (t n (before.length + 1)) ≤ begun w (t n 0) + 255) →
      ((splitRead F w (places before after) tries t s).1 = true ↔
        ∃ n < tries, ended w (t n (before.length + 1)) = begun w (t n 0)) := by
  induction tries with
  | zero => simp [splitRead]
  | succ tries ih =>
    intro t s ht hfew
    have hfirst := copyPlaces_agree (F := F) h hnodup (ht 0) (hfew 0) s
    have hrest := ih (t := fun n => t (n + 1)) (s := copyPlaces F w (places before after) (t 0) s)
      (fun n => ht (n + 1)) fun n => hfew (n + 1)
    rw [splitRead]
    by_cases hagree : ended w (t 0 (before.length + 1)) = begun w (t 0 0)
    · simp only [hfirst.2 hagree, if_true, true_iff]
      exact ⟨0, Nat.succ_pos _, hagree⟩
    · simp only [hfirst.not.2 hagree, if_false, hrest]
      constructor
      · rintro ⟨n, hn, heq⟩
        exact ⟨n + 1, Nat.succ_lt_succ hn, heq⟩
      · rintro ⟨n, hn, heq⟩
        cases n with
        | zero => exact absurd heq hagree
        | succ n => exact ⟨n, Nat.lt_of_succ_lt_succ hn, heq⟩

/-- A kept copy has its fields before the tail from the moments of one copy, whose counts agree. -/
theorem splitRead_fields {tries : Nat} :
    ∀ {t : Nat → Nat → Nat} {s₀ s : Counted σ}, (∀ n, Monotone (t n)) →
      (∀ n, begun w (t n (before.length + 1)) ≤ begun w (t n 0) + 255) →
      splitRead F w (places before after) tries t s₀ = (true, s) →
        ∃ n < tries, ended w (t n (before.length + 1)) = begun w (t n 0) ∧
          ∀ k i, before[k]? = some i → F.Same i (w (t n (k + 1))).block.data s.data := by
  induction tries with
  | zero => simp [splitRead]
  | succ tries ih =>
    intro t s₀ s ht hfew hread
    have hfirst := copyPlaces_agree (F := F) h hnodup (ht 0) (hfew 0) s₀
    rw [splitRead] at hread
    by_cases hagree : ended w (t 0 (before.length + 1)) = begun w (t 0 0)
    · simp only [hfirst.2 hagree, if_true, Prod.mk.injEq, true_and] at hread
      exact ⟨0, Nat.succ_pos _, hagree, fun k i hk => hread ▸ copyPlaces_reads hnodup (places_field hk)⟩
    · simp only [hfirst.not.2 hagree, if_false] at hread
      obtain ⟨n, hn, hrest⟩ := ih (t := fun n => t (n + 1)) (fun n => ht (n + 1)) (fun n => hfew (n + 1)) hread
      exact ⟨n + 1, Nat.succ_lt_succ hn, hrest⟩

end Counts

/-! ### Two updates in one copy -/

/-- A whole update from `d₀` to `d₁`, and one that has written `d₂` before it ends. -/
def twoUpdates (d₀ d₁ d₂ : σ) : Nat → Writer σ
  | 0 => ⟨⟨0, d₀, 0⟩, false⟩
  | 1 => ⟨⟨1, d₀, 0⟩, true⟩
  | 2 => ⟨⟨1, d₁, 0⟩, true⟩
  | 3 => ⟨⟨1, d₁, 1⟩, false⟩
  | 4 => ⟨⟨2, d₁, 1⟩, true⟩
  | 5 => ⟨⟨2, d₂, 1⟩, true⟩
  | _ + 6 => ⟨⟨2, d₂, 2⟩, false⟩

theorem twoUpdates_run (d₀ d₁ d₂ : σ) : WriterRun (twoUpdates d₀ d₁ d₂) := by
  refine ⟨rfl, rfl, fun n => ?_⟩
  match n with
  | 0 => exact .start ⟨0, d₀, 0⟩
  | 1 => exact .write ⟨1, d₀, 0⟩ d₁
  | 2 => exact .finish ⟨1, d₁, 0⟩
  | 3 => exact .start ⟨1, d₁, 1⟩
  | 4 => exact .write ⟨2, d₁, 1⟩ d₂
  | 5 => exact .finish ⟨2, d₂, 1⟩
  | n + 6 => exact .rest _

/-- A copy that starts in the first update, goes on after it and ends in the second. -/
def slowCopy (a b k : Nat) : Nat := if k ≤ a then 1 else if k ≤ b then 3 else 5

theorem slowCopy_mono {a b : Nat} : Monotone (slowCopy a b) := by
  intro k l hkl
  unfold slowCopy
  split_ifs <;> omega

/-- The copy is kept, though it has fields from before the first update, from after it, and of the second. -/
theorem splitRead_mixed (hnodup : (places before after).Nodup) {a b : Nat} (hab : a ≤ b) (hb : b ≤ before.length)
    (d₀ d₁ d₂ : σ) (tries : Nat) (s₀ : Counted σ) :
    ∃ s, splitRead F (twoUpdates d₀ d₁ d₂) (places before after) (tries + 1) (fun _ => slowCopy a b) s₀ = (true, s) ∧
      ∀ k i, before[k]? = some i → F.Same i (if k < a then d₀ else if k < b then d₁ else d₂) s.data := by
  have htail : slowCopy a b (before.length + 1) = 5 := by
    unfold slowCopy
    rw [if_neg (by omega), if_neg (by omega)]
  have hagree := (copyPlaces_agree (F := F) (twoUpdates_run d₀ d₁ d₂) hnodup (slowCopy_mono (a := a) (b := b))
    (by rw [htail]; simp [slowCopy, begun, twoUpdates]) s₀).2 (by rw [htail]; simp [slowCopy, begun, ended, twoUpdates])
  refine ⟨_, by rw [splitRead, if_pos hagree], fun k i hk => ?_⟩
  have hread : Reads F (.field i) _ _ :=
    copyPlaces_reads (w := twoUpdates d₀ d₁ d₂) hnodup (t := slowCopy a b) (s := s₀) (places_field hk)
  have htime : (twoUpdates d₀ d₁ d₂ (slowCopy a b (k + 1))).block.data =
      if k < a then d₀ else if k < b then d₁ else d₂ := by
    unfold slowCopy
    by_cases hka : k + 1 ≤ a
    · simp [hka, twoUpdates, Nat.lt_of_succ_le hka]
    · by_cases hkb : k + 1 ≤ b
      · simp [hka, hkb, twoUpdates, Nat.lt_of_succ_le hkb, show ¬ k < a by omega]
      · simp [hka, hkb, twoUpdates, show ¬ k < a by omega, show ¬ k < b by omega]
  rw [← htime]
  exact hread

end Reader

end SoemMotion.Lib
