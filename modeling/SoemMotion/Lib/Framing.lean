import Mathlib.Data.List.Forall2

/-!
# Cutting a stream of messages

A stream is the concatenation of encoded messages, and it arrives cut into chunks.  A receiver that decodes every chunk
on its own recovers the messages exactly when the chunks are the encoded messages: a chunk from which a message can be
decoded is at least as long as the message, and there is nothing left over.
-/

namespace SoemMotion.Lib

variable {α β : Type*}

/-- Two cuts of one list agree if the pieces of the first are at least as long as those of the second. -/
theorem eq_of_flatten_eq {cs ds : List (List β)} (hflat : cs.flatten = ds.flatten)
    (hlen : List.Forall₂ (fun c d => d.length ≤ c.length) cs ds) : cs = ds := by
  have hsum : ∀ {as bs : List (List β)}, List.Forall₂ (fun c d => d.length ≤ c.length) as bs →
      bs.flatten.length ≤ as.flatten.length := by
    intro as bs h
    induction h with
    | nil => exact Nat.le_refl _
    | cons hcd _ ih =>
      rw [List.flatten_cons, List.flatten_cons, List.length_append, List.length_append]
      omega
  induction hlen with
  | nil => rfl
  | @cons c d cs ds hcd hrest ih =>
    rw [List.flatten_cons, List.flatten_cons] at hflat
    have htotal := congrArg List.length hflat
    rw [List.length_append, List.length_append] at htotal
    have htail := hsum hrest
    have hhead : c.length = d.length := by omega
    obtain ⟨rfl, hrec⟩ := List.append_inj hflat hhead
    rw [ih hrec]

theorem forall₂_of_mapM_eq_some {decode : β → Option α} {cs : List β} {as : List α}
    (h : cs.mapM decode = some as) : List.Forall₂ (fun c a => decode c = some a) cs as := by
  induction cs generalizing as with
  | nil =>
    rw [List.mapM_nil] at h
    cases h
    exact .nil
  | cons c cs ih =>
    rw [List.mapM_cons] at h
    obtain ⟨a, ha, h⟩ := Option.bind_eq_some_iff.1 h
    obtain ⟨as', has, h⟩ := Option.bind_eq_some_iff.1 h
    cases h
    exact .cons ha (ih has)

theorem mapM_map_eq_some {encode : α → β} {decode : β → Option α} {as : List α}
    (h : ∀ a ∈ as, decode (encode a) = some a) : (as.map encode).mapM decode = some as := by
  induction as with
  | nil => rfl
  | cons a as ih =>
    rw [List.map_cons, List.mapM_cons, h a (by simp), ih fun b hb => h b (List.mem_cons_of_mem a hb)]
    rfl

/-- Decoding chunk by chunk recovers the messages exactly when the chunks are the messages. -/
theorem mapM_decode_eq_iff {encode : α → List β} {decode : List β → Option α} {as : List α} {cs : List (List β)}
    (hdecode : ∀ a ∈ as, decode (encode a) = some a)
    (hlen : ∀ c a, decode c = some a → (encode a).length ≤ c.length)
    (hflat : cs.flatten = (as.map encode).flatten) : cs.mapM decode = some as ↔ cs = as.map encode := by
  constructor
  · intro h
    refine eq_of_flatten_eq hflat ?_
    rw [List.forall₂_map_right_iff]
    exact (forall₂_of_mapM_eq_some h).imp hlen
  · rintro rfl
    exact mapM_map_eq_some hdecode

end SoemMotion.Lib
