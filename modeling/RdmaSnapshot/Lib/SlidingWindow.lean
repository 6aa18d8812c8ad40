import Mathlib.Data.List.DropRight

/-!
# Sliding windows

The last entries of a list that grows, kept in a queue of bounded length: an entry is pushed at the
back, and when that makes the queue too long the entry at its front is popped.
-/

namespace SlidingWindow

variable {α : Type*} {W : ℕ}

/-- The queue without its front once it has more than `W` entries. -/
def evict (W : ℕ) (queue : List α) : List α := if W < queue.length then queue.tail else queue

theorem length_rtake (l : List α) : (l.rtake W).length = min l.length W := by
  rw [List.rtake, List.length_drop]
  omega

/-- A window moves on by a push and a pop. -/
theorem evict_rtake_concat (l : List α) (x : α) :
    evict W (l.rtake W ++ [x]) = (l ++ [x]).rtake W := by
  have hlen : (l.rtake W ++ [x]).length = min l.length W + 1 := by
    rw [List.length_append, length_rtake, List.length_singleton]
  unfold evict
  rw [hlen]
  rcases Nat.lt_or_ge l.length W with hlt | hge
  · -- the window is not full: nothing has been left behind
    rw [if_neg (by omega), List.rtake, List.rtake, List.length_append, List.length_singleton,
      Nat.sub_eq_zero_of_le hlt.le, Nat.sub_eq_zero_of_le hlt]
    rfl
  · rw [if_pos (by omega), List.rtake, List.rtake, List.length_append, List.length_singleton,
      ← List.drop_append_of_le_length (Nat.sub_le ..), List.tail_drop, Nat.sub_add_comm hge]

/-- The entries equal to `a` that are left. -/
theorem count_evict [DecidableEq α] (queue : List α) (a : α) :
    ((evict W queue).count a : ℤ) =
      queue.count a - if W < queue.length ∧ queue.head? = some a then 1 else 0 := by
  unfold evict
  cases queue with
  | nil => simp
  | cons x queue =>
    rw [List.length_cons]
    by_cases hW : W < queue.length + 1
    · by_cases hx : x = a <;> simp [hW, hx]
    · simp [hW]

end SlidingWindow
