import RdmaSnapshot.Lib.Fifo

/-!
# Settled contents

A memory of cells with updates that have yet to be made. Every update belongs to a lane, updates of
one lane are made in order, and all updates of one cell are in one lane. Then the contents the
memory will have when all updates are made do not depend on the order in which the lanes proceed.
-/

/-- Updates `α` of a memory with cells `κ`, in lanes `ι`. -/
structure Updates (α κ ι : Type*) (β : κ → Type*) where
  apply : α → ((k : κ) → β k) → (k : κ) → β k
  touches : κ → α → Bool
  lane : α → ι
  apply_of_not_touches : ∀ {a k} m, touches k a = false → apply a m k = m k
  /-- What becomes of a cell depends on that cell only. -/
  apply_congr : ∀ {k m m'} a, m k = m' k → apply a m k = apply a m' k
  lane_eq : ∀ {a b k}, touches k a = true → touches k b = true → lane a = lane b

namespace Updates

variable {α κ ι : Type*} {β : κ → Type*} (U : Updates α κ ι β) {m m' : (k : κ) → β k} {k : κ}
  {l : List α} {i : ℕ} {x : α}

/-- The contents after the updates `l`, oldest first. -/
def settle (m : (k : κ) → β k) (l : List α) : (k : κ) → β k := l.foldl (fun m a => U.apply a m) m

@[simp] theorem settle_nil : U.settle m [] = m := rfl

@[simp] theorem settle_cons (a : α) : U.settle m (a :: l) = U.settle (U.apply a m) l := rfl

theorem settle_append (l' : List α) : U.settle m (l ++ l') = U.settle (U.settle m l) l' :=
  List.foldl_append ..

theorem settle_congr (h : m k = m' k) : U.settle m l k = U.settle m' l k := by
  induction l generalizing m m' with
  | nil => exact h
  | cons a l ih => exact ih (U.apply_congr a h)

/-- A cell settles by the updates that touch it. -/
theorem settle_filter : U.settle m l k = U.settle m (l.filter (U.touches k)) k := by
  induction l generalizing m with
  | nil => rfl
  | cons a l ih =>
    cases ha : U.touches k a with
    | true =>
      rw [List.filter_cons_of_pos ha]
      exact ih
    | false =>
      rw [List.filter_cons_of_neg (by simp [ha]), settle_cons, ih]
      exact U.settle_congr (U.apply_of_not_touches m ha)

theorem settle_of_not_touched (h : ∀ a ∈ l, U.touches k a = false) : U.settle m l k = m k := by
  rw [settle_filter, List.filter_eq_nil_iff.2 fun a ha => by simp [h a ha]]
  rfl

/-- **Order does not matter.** The oldest update of a lane is made: the memory settles as before. -/
theorem settle_eraseIdx (ho : Fifo.Oldest U.lane l i x) :
    U.settle (U.apply x m) (l.eraseIdx i) = U.settle m l := by
  funext k
  rw [settle_filter, U.settle_filter (l := l)]
  cases hx : U.touches k x with
  | true =>
    -- the update is the first of those that touch the cell
    rw [Fifo.filter_eq_cons ho (U.touches k) hx fun y hy => U.lane_eq hy hx]
    rfl
  | false =>
    rw [Fifo.filter_eraseIdx_of_neg ho.getElem (U.touches k) hx]
    exact U.settle_congr (U.apply_of_not_touches m hx)

end Updates
