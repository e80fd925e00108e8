import Mathlib.Data.List.Nodup
import SoemMotion.Lib.Run

/-!
# Walking along a list that changes

A cursor stands at an element of a list, or at none once it has come to the end.  Between its moves the list is edited:
elements leave it, others come in, and those that stay keep their order (`SameOrder`).  The elements that stay on the
list all the time are met once each, in the order of the list (`Cursor.accounts`).
-/

namespace SoemMotion.Lib

variable {α : Type*} [DecidableEq α]

/-! ### Editing a list -/

/-- What the two lists share stands in the same order in both. -/
def SameOrder (l l' : List α) : Prop := l.filter (· ∈ l') = l'.filter (· ∈ l)

theorem SameOrder.refl (l : List α) : SameOrder l l := rfl

theorem SameOrder.filter (l : List α) (p : α → Bool) : SameOrder l (l.filter p) := by
  unfold SameOrder
  have hall : (l.filter p).filter (· ∈ l) = l.filter p :=
    List.filter_eq_self.2 fun a ha => decide_eq_true (List.mem_filter.1 ha).1
  rw [hall]
  refine List.filter_congr fun a ha => ?_
  simp only [List.mem_filter, ha, true_and, Bool.decide_eq_true]

theorem SameOrder.insert {as bs : List α} {a : α} (ha : a ∉ as ++ bs) : SameOrder (as ++ bs) (as ++ a :: bs) := by
  have hold : (as ++ bs).filter (· ∈ as ++ a :: bs) = as ++ bs := by
    refine List.filter_eq_self.2 fun x hx => decide_eq_true ?_
    rcases List.mem_append.1 hx with hx | hx
    · exact List.mem_append_left _ hx
    · exact List.mem_append_right _ (List.mem_cons_of_mem _ hx)
  have hkept : ∀ l : List α, (∀ x ∈ l, x ∈ as ++ bs) → l.filter (· ∈ as ++ bs) = l :=
    fun l hl => List.filter_eq_self.2 fun x hx => decide_eq_true (hl x hx)
  unfold SameOrder
  rw [hold, List.filter_append, List.filter_cons_of_neg (by simpa using ha),
    hkept as fun x hx => List.mem_append_left _ hx, hkept bs fun x hx => List.mem_append_right _ hx]

/-- The elements of `keep` are in the same order in both lists, if both have them. -/
theorem SameOrder.filter_mem {l l' keep : List α} (h : SameOrder l l') (hl : ∀ a ∈ keep, a ∈ l)
    (hl' : ∀ a ∈ keep, a ∈ l') : l.filter (· ∈ keep) = l'.filter (· ∈ keep) := by
  have hthin : ∀ m m' : List α, (∀ a ∈ keep, a ∈ m') → (m.filter (· ∈ m')).filter (· ∈ keep) = m.filter (· ∈ keep) := by
    intro m m' hm
    rw [List.filter_filter]
    refine List.filter_congr fun a _ => ?_
    by_cases hk : a ∈ keep
    · simp [hk, hm a hk]
    · simp [hk]
  calc l.filter (· ∈ keep)
      = (l.filter (· ∈ l')).filter (· ∈ keep) := (hthin l l' hl').symm
    _ = (l'.filter (· ∈ l)).filter (· ∈ keep) := by rw [h]
    _ = l'.filter (· ∈ keep) := hthin l' l hl

/-! ### What comes after an element -/

/-- The elements after the first `a`. -/
def after (a : α) (l : List α) : List α := (l.dropWhile (· ≠ a)).tail

theorem after_append {a : α} {as : List α} (ha : a ∉ as) (bs : List α) : after a (as ++ a :: bs) = bs := by
  have hpass : ∀ x ∈ as, decide (x ≠ a) = true := by
    intro x hx
    rw [decide_eq_true_eq]
    rintro rfl
    exact ha hx
  unfold after
  rw [List.dropWhile_append_of_pos hpass, List.dropWhile_cons_of_neg (by simp), List.tail_cons]

/-- A list without repetition, split at an element. -/
theorem split_at_mem {a : α} {l : List α} (hnodup : l.Nodup) (ha : a ∈ l) :
    ∃ as, l = as ++ a :: after a l ∧ a ∉ as ∧ a ∉ after a l := by
  obtain ⟨as, bs, rfl⟩ := List.append_of_mem ha
  have hnot := (List.nodup_cons.1 (List.nodup_middle.1 hnodup)).1
  rw [List.mem_append, not_or] at hnot
  exact ⟨as, by rw [after_append hnot.1], hnot.1, by rw [after_append hnot.1]; exact hnot.2⟩

/-- Two lists that split at an element with nothing of it elsewhere split alike. -/
theorem append_cons_inj {a : α} {as bs cs ds : List α} (h : as ++ a :: bs = cs ++ a :: ds) (has : a ∉ as)
    (hcs : a ∉ cs) : bs = ds := by
  have hleft := after_append has bs
  rw [h, after_append hcs] at hleft
  exact hleft.symm

/-- An edit that leaves `a` and the elements of `keep` leaves the elements of `keep` after `a`. -/
theorem SameOrder.after_eq {l l' keep : List α} {a : α} (h : SameOrder l l') (hnodup : l.Nodup) (hnodup' : l'.Nodup)
    (ha : a ∈ l) (ha' : a ∈ l') (hl : ∀ x ∈ keep, x ∈ l) (hl' : ∀ x ∈ keep, x ∈ l') :
    (after a l).filter (· ∈ keep) = (after a l').filter (· ∈ keep) := by
  obtain ⟨as, hsplit, has, hafter⟩ := split_at_mem hnodup ha
  obtain ⟨as', hsplit', has', hafter'⟩ := split_at_mem hnodup' ha'
  -- with `a` among what is looked at, the two lists split at it alike
  have hsame : l.filter (· ∈ a :: keep) = l'.filter (· ∈ a :: keep) :=
    h.filter_mem (List.forall_mem_cons.2 ⟨ha, hl⟩) (List.forall_mem_cons.2 ⟨ha', hl'⟩)
  rw [hsplit, hsplit', List.filter_append, List.filter_append, List.filter_cons_of_pos (by simp),
    List.filter_cons_of_pos (by simp)] at hsame
  have hrest := append_cons_inj hsame (fun hmem => has (List.mem_filter.1 hmem).1)
    fun hmem => has' (List.mem_filter.1 hmem).1
  have hdrop : ∀ m : List α, a ∉ m → m.filter (· ∈ a :: keep) = m.filter (· ∈ keep) := by
    intro m hm
    refine List.filter_congr fun x hx => ?_
    have hxa : x ≠ a := fun heq => hm (heq ▸ hx)
    simp [hxa]
  rwa [hdrop _ hafter, hdrop _ hafter'] at hrest

/-! ### The cursor -/

/-- A list, the element the cursor stands at, and those it has stood at. -/
structure Cursor (α : Type*) where
  list : List α
  place : Option α
  seen : List α

inductive CursorEvent
  | edit
  | move

namespace Cursor

/-- The elements still to come. -/
def ahead (c : Cursor α) : List α :=
  match c.place with
  | none => []
  | some a => after a c.list

/-- The cursor at the first element. -/
def start (l : List α) : Cursor α := ⟨l, l.head?, l.head?.toList⟩

/-- The list is edited, but not where the cursor stands; or the cursor moves on. -/
inductive Step (c : Cursor α) : CursorEvent → Cursor α → Prop
  | edit (l : List α) (hnodup : l.Nodup) (horder : SameOrder c.list l) (hstay : ∀ a, c.place = some a → a ∈ l) :
    Step c .edit { c with list := l }
  | move (a : α) (hplace : c.place = some a) :
    Step c .move { c with place := c.ahead.head?, seen := c.seen ++ c.ahead.head?.toList }

variable {c c' : Cursor α}

/-- The cursor stands at an element of its list, which has none twice. -/
structure Ok (c : Cursor α) : Prop where
  nodup : c.list.Nodup
  place : ∀ a, c.place = some a → a ∈ c.list

omit [DecidableEq α] in
theorem ok_start {l : List α} (hnodup : l.Nodup) : (start l).Ok :=
  ⟨hnodup, fun _ ha => List.mem_of_head? ha⟩

theorem mem_ahead {a : α} (ha : a ∈ c.ahead) : a ∈ c.list := by
  unfold ahead at ha
  cases hplace : c.place with
  | none =>
    rw [hplace] at ha
    cases ha
  | some b =>
    rw [hplace] at ha
    exact (List.dropWhile_sublist _).subset (List.mem_of_mem_tail ha)

theorem Step.ok {e : CursorEvent} (h : Step c e c') (hc : c.Ok) : c'.Ok := by
  cases h with
  | edit l hnodup horder hstay => exact ⟨hnodup, hstay⟩
  | move a hplace =>
    refine ⟨hc.nodup, fun b hb => ?_⟩
    have hhead : c.ahead.head? = some b := hb
    exact mem_ahead (c := c) (List.mem_of_head? hhead)

/-- What comes after the move was to come before it, with the element moved to in front. -/
theorem ahead_move {a : α} (hc : c.Ok) (hplace : c.place = some a) :
    c.ahead = c.ahead.head?.toList ++
      ({ c with place := c.ahead.head?, seen := c.seen ++ c.ahead.head?.toList }).ahead := by
  cases hahead : c.ahead with
  | nil => rfl
  | cons b bs =>
    obtain ⟨as, hsplit, ha, -⟩ := split_at_mem hc.nodup (hc.place a hplace)
    have hafter : after a c.list = b :: bs := by
      rw [← hahead]
      unfold ahead
      rw [hplace]
    rw [hafter] at hsplit
    have hlist : c.list = (as ++ [a]) ++ b :: bs := by
      rw [hsplit]
      simp
    have hb : b ∉ as ++ [a] := by
      have hnodup := hc.nodup
      rw [hlist] at hnodup
      exact fun hmem => (List.nodup_append.1 hnodup).2.2 b hmem b List.mem_cons_self rfl
    show b :: bs = [b] ++ after b c.list
    rw [hlist, after_append hb]
    rfl

/-- Of the elements that stay, those seen and those to come are the same all the time. -/
theorem Step.accounts {e : CursorEvent} {keep : List α} (h : Step c e c') (hc : c.Ok) (hkeep : ∀ a ∈ keep, a ∈ c.list)
    (hkeep' : ∀ a ∈ keep, a ∈ c'.list) :
    (c'.seen ++ c'.ahead).filter (· ∈ keep) = (c.seen ++ c.ahead).filter (· ∈ keep) := by
  cases h with
  | edit l hnodup horder hstay =>
    rw [List.filter_append, List.filter_append]
    congr 1
    unfold ahead
    dsimp only
    cases hplace : c.place with
    | none => rfl
    | some a =>
      exact (horder.after_eq hc.nodup hnodup (hc.place a hplace) (hstay a hplace) hkeep hkeep').symm
  | move a hplace =>
    conv_rhs => rw [ahead_move hc hplace, ← List.append_assoc]

/-- The elements that stay on the list all the time are met once each, in the order they had at the start. -/
theorem accounts {l keep : List α} (hnodup : l.Nodup) (hkeep : ∀ a ∈ keep, a ∈ l)
    (h : Reaches (Restrict Step fun _ _ c => ∀ a ∈ keep, a ∈ c.list) (start l) c) :
    c.Ok ∧ (c.seen ++ c.ahead).filter (· ∈ keep) = l.filter (· ∈ keep) := by
  have hstart : (start l).seen ++ (start l).ahead = l := by
    unfold start ahead
    cases l with
    | nil => rfl
    | cons a as =>
      have hnone : a ∉ ([] : List α) := List.not_mem_nil
      exact congrArg (a :: ·) (after_append hnone as)
  have hall : c.Ok ∧ (∀ a ∈ keep, a ∈ c.list) ∧ (c.seen ++ c.ahead).filter (· ∈ keep) = l.filter (· ∈ keep) := by
    refine h.invariant (I := fun c => c.Ok ∧ (∀ a ∈ keep, a ∈ c.list) ∧
      (c.seen ++ c.ahead).filter (· ∈ keep) = l.filter (· ∈ keep)) ?_ ⟨ok_start hnodup, hkeep, by rw [hstart]⟩
    rintro c e c' ⟨hok, hin, hacc⟩ ⟨hstep, hin'⟩
    exact ⟨hstep.ok hok, hin', (hstep.accounts hok hin hin').trans hacc⟩
  exact ⟨hall.1, hall.2.2⟩

end Cursor

end SoemMotion.Lib
