import Mathlib.Data.Int.Notation
import Mathlib.Data.List.Induction

/-!
# A consumer that drops what is not newer

What such a consumer keeps of a stream: each item that is newer than all that it kept before.
-/
namespace NumentaApps.MonotoneConsumer

universe u

variable {α : Type u} (time : α → ℤ)

def keepStep (kept : List α) (x : α) : List α :=
  if ∀ y ∈ kept, time y < time x then kept ++ [x] else kept

def keep (stream : List α) : List α := stream.foldl (keepStep time) []

variable {time} {stream : List α} {x y : α}

theorem keep_append (stream : List α) (x : α) :
    keep time (stream ++ [x]) = keepStep time (keep time stream) x := by
  rw [keep, List.foldl_append]
  rfl

/-- What is kept is not dropped later. -/
theorem mem_keep_append (h : y ∈ keep time stream) (x : α) : y ∈ keep time (stream ++ [x]) := by
  rw [keep_append, keepStep]
  split
  · exact List.mem_append_left _ h
  · exact h

theorem mem_of_mem_keep (h : y ∈ keep time stream) : y ∈ stream := by
  induction stream using List.reverseRecOn with
  | nil => exact h
  | append_singleton stream x ih =>
    rw [keep_append, keepStep] at h
    split at h
    · rcases List.mem_append.mp h with h | h
      · exact List.mem_append_left _ (ih h)
      · exact List.mem_append_right _ h
    · exact List.mem_append_left _ (ih h)

/-- An item newer than the whole stream is kept. -/
theorem mem_keep_of_newer (h : ∀ y ∈ stream, time y < time x) : x ∈ keep time (stream ++ [x]) := by
  rw [keep_append, keepStep, if_pos fun y hy => h y (mem_of_mem_keep hy)]
  exact List.mem_append_right _ List.mem_cons_self

/-- The times of what is kept ascend. -/
theorem keep_ascending (stream : List α) : (keep time stream).Pairwise fun x y => time x < time y := by
  induction stream using List.reverseRecOn with
  | nil => exact .nil
  | append_singleton stream x ih =>
    rw [keep_append, keepStep]
    split
    · next hnewer =>
      refine List.pairwise_append.mpr ⟨ih, List.pairwise_singleton _ _, fun y hy z hz => ?_⟩
      rw [List.mem_singleton.mp hz]
      exact hnewer y hy
    · exact ih

end NumentaApps.MonotoneConsumer
