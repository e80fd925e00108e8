import SoemMotion.HalRegistry

/-!
# Usage counts

The entries of a thread can be read off the links of the block (`HalBlock.entriesOf`).  In every block that a run
reaches, the count of a function is the number of entries that refer to it (`HalBlock.Counted`), and every call that
has memory for its entry and deletes no component comes back.
-/

namespace SoemMotion

open Lib HalBlock

/-- The nodes of the ring of `root`, read off the links. -/
def HalBlock.entriesOf (b : HalBlock) (root : Int) : List Int :=
  follow b.links.next root halSize.toNat (b.links.next root)

/-- The functions of the block count the entries that refer to them, and the entries form rings without a common
node. -/
structure HalBlock.Counted (b : HalBlock) : Prop where
  users : ∀ f ∈ b.functs.list, (b.functs.cell f).users = uses b.entries b.entriesOf b.threads.list f
  single : ∀ f ∈ b.functs.list, (b.functs.cell f).reentrant = 0 → uses b.entries b.entriesOf b.threads.list f ≤ 1
  refers : ∀ t ∈ b.threads.list, ∀ e ∈ b.entriesOf (functList t), (b.entries e).functPtr ∈ b.functs.list
  rings : Rings b.links (ringRoots b.threads.list) b.entriesOf

variable {b b' : HalBlock}

theorem HalBlock.EntriesIn.entriesOf_eq {fs ts spare : List Int} {es : Int → List Int} (h : b.EntriesIn fs ts spare es)
    {r : Int} (hr : r ∈ ringRoots (ts ++ spare)) : b.entriesOf r = es r :=
  (h.rings.ring r hr).follow_eq (h.length_lt hr)

theorem HalBlock.Sound.counted (h : b.Sound) : b.Counted := by
  obtain ⟨es, hes⟩ := h.entries
  have hroots : ∀ r ∈ ringRoots b.threads.list, r ∈ ringRoots (b.threads.list ++ b.threads.free) :=
    fun r hr => ringRoots_append b.threads.free hr
  have hsame : ∀ t ∈ b.threads.list, b.entriesOf (functList t) = es (functList t) :=
    fun t ht => hes.entriesOf_eq (mem_ringRoots (List.mem_append_left _ ht))
  have huses : ∀ f, uses b.entries b.entriesOf b.threads.list f = uses b.entries es b.threads.list f :=
    fun f => uses_congr hsame fun _ _ _ _ => rfl
  constructor
  · intro f hf
    rw [huses]
    exact hes.users f hf
  · intro f hf hre
    have hcount := hes.users f hf
    have hone := h.single f hf hre
    rw [huses]
    omega
  · intro t ht e he
    rw [hsame t ht] at he
    exact hes.refers t ht e he
  · exact (hes.rings.subset hroots).congr fun r hr => hes.entriesOf_eq (hroots r hr)

/-- After every run from an empty registry the counts are right; and the next call comes back, unless it finds no
memory for its entry or deletes a component. -/
theorem hal_users_counted (h : b.Empty) (hrun : Reaches blockStep b b') :
    b'.Counted ∧ ∀ c : BlockCall, c.InRun → c.deadlocks b' = false → c.starves b' = false →
      ∃ r b'', c.run b' = .ok (r, b'') := by
  have hsound := h.reaches hrun
  refine ⟨hsound.counted, fun c hc hdead hstarve => ?_⟩
  obtain ⟨r, b'', hcall, -⟩ := BlockCall.run_returns hsound hc hdead hstarve
  exact ⟨r, b'', hcall⟩

/-- A component with a reentrant function, which is added to a thread twice and taken from it once. -/
def usageCalls : List BlockCall :=
  [.init 1 (some [97]), .exportFunct [102] 4096 8192 0 1 1, .createThread ⟨2, 3, 0⟩ [116] 1000000 1 0,
    .addFunct (some [102]) (some [116]) 1, .addFunct (some [102]) (some [116]) (-1),
    .delFunct (some [102]) (some [116])]

theorem usageCalls_reaches {rs : List Int} {b : HalBlock}
    (hrun : runCalls BlockCall.call usageCalls zeroBlock.initialised = some (rs, b)) :
    Reaches blockStep zeroBlock.initialised b := by
  have hin : ∀ c ∈ usageCalls, c.InRun := by
    intro c hc
    simp only [usageCalls, List.mem_cons, List.not_mem_nil, or_false] at hc
    rcases hc with rfl | rfl | rfl | rfl | rfl | rfl
    all_goals exact trivial
  exact runCalls_reaches (fun b c r b' hc hcall => ⟨hin c hc, r, BlockCall.call_eq_some.1 hcall⟩) hrun

theorem hal_users_counted_usageCalls : ∃ rs b, runCalls BlockCall.call usageCalls zeroBlock.initialised = some (rs, b) ∧
    rs = [1, 0, 2, 0, 0, 0] ∧ b.Counted := by
  have hsome : ((runCalls BlockCall.call usageCalls zeroBlock.initialised).map fun x => x.1) =
      some [1, 0, 2, 0, 0, 0] := by
    decide +kernel
  obtain ⟨⟨rs, b⟩, hrun, hrs⟩ := Option.map_eq_some_iff.1 hsome
  exact ⟨rs, b, hrun, hrs, (hal_users_counted zeroBlock_empty (usageCalls_reaches hrun)).1⟩

end SoemMotion
