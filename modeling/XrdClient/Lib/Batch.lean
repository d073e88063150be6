/-
  Lib/Batch.lean --- items gathered into batches, under two ceilings.

  A batch holds at most `most` items, and their sizes add up to at most `ceiling`.  An item
  that does not go into the batch that is being filled starts the next one.  Nothing is
  reordered, so the batches one after another are the items; and as long as no single item
  is over the ceiling, no batch is.
-/
import Mathlib

set_option autoImplicit false

namespace XrdClient.Lib

section Batch

variable {α : Type} (most : Nat) (ceiling : Int) (size : α → Int)

/-- The batches of `batch`, which is being filled and has `total` so far, and of the items
that come after it. -/
def batchesFrom : List α → Int → List α → List (List α)
  | batch, _, [] => if batch.isEmpty then [] else [batch]
  | batch, total, item :: items =>
      if ¬ batch.isEmpty ∧ (most ≤ batch.length ∨ ceiling < total + size item) then
        batch :: batchesFrom [item] (size item) items
      else batchesFrom (batch ++ [item]) (total + size item) items

/-- A batch that may be sent. -/
structure Batch (batch : List α) : Prop where
  some_ : batch ≠ []
  count : batch.length ≤ most
  total : (batch.map size).sum ≤ ceiling

theorem flatten_batchesFrom (batch : List α) (total : Int) (items : List α) :
    (batchesFrom most ceiling size batch total items).flatten = batch ++ items := by
  induction items generalizing batch total with
  | nil =>
    rw [batchesFrom]
    split
    · next hnone => rw [List.isEmpty_iff.mp hnone, List.flatten_nil, List.append_nil]
    · rw [List.flatten_singleton, List.append_nil]
  | cons item items ih =>
    rw [batchesFrom]
    split
    · rw [List.flatten_cons, ih, List.singleton_append]
    · rw [ih, List.append_assoc, List.singleton_append]

variable {most ceiling size}

theorem Batch.single {item : α} (hmost : 0 < most) (h : size item ≤ ceiling) : Batch most ceiling size [item] where
  some_ := List.cons_ne_nil _ _
  count := hmost
  total := by rwa [List.map_singleton, List.sum_singleton]

theorem Batch.concat {batch : List α} {item : α} (hcount : batch.length < most)
    (h : (batch.map size).sum + size item ≤ ceiling) : Batch most ceiling size (batch ++ [item]) where
  some_ := List.concat_ne_nil _ _
  count := by rw [List.length_append, List.length_singleton]; exact hcount
  total := by rwa [List.map_append, List.sum_append, List.map_singleton, List.sum_singleton]

/-- Every batch may be sent, when the one that is being filled may, or is empty. -/
theorem batch_of_mem_batchesFrom (hmost : 0 < most) {items : List α} (hitems : ∀ item ∈ items, size item ≤ ceiling)
    {batch : List α} (hbatch : batch = [] ∨ Batch most ceiling size batch) :
    ∀ b ∈ batchesFrom most ceiling size batch (batch.map size).sum items, Batch most ceiling size b := by
  induction items generalizing batch with
  | nil =>
    intro b hb
    rw [batchesFrom] at hb
    rcases hbatch with rfl | hbatch
    · cases hb
    · rw [if_neg (by simpa using hbatch.some_)] at hb
      exact List.mem_singleton.mp hb ▸ hbatch
  | cons item items ih =>
    intro b hb
    obtain ⟨hitem, hrest⟩ := List.forall_mem_cons.mp hitems
    rw [batchesFrom] at hb
    split at hb
    · next hfull =>
      have hnew := Batch.single hmost hitem
      rcases List.mem_cons.mp hb with rfl | hb
      · exact hbatch.resolve_left (by simpa using hfull.1)
      · exact ih hrest (.inr hnew) b (by simpa using hb)
    · next hfits =>
      have hnew : Batch most ceiling size (batch ++ [item]) := by
        rcases hbatch with rfl | hbatch
        · exact Batch.single hmost hitem
        · have hroom := fun h => hfits ⟨by simpa using hbatch.some_, h⟩
          apply Batch.concat
          · exact Nat.not_le.mp fun h => hroom (.inl h)
          · exact Int.not_lt.mp fun h => hroom (.inr h)
      apply ih hrest (.inr hnew)
      rwa [List.map_append, List.sum_append, List.map_singleton, List.sum_singleton]

end Batch

end XrdClient.Lib
