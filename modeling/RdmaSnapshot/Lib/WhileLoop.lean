import Mathlib.Data.Nat.Notation

/-!
# Loops that may not end

A loop runs its body while a condition holds. How often the body may run is bounded by a fuel, so
that loops that never leave are loops that run out of every fuel. A body may also wait for ever,
which is `none`.
-/

namespace WhileLoop

variable {σ : Type} (cond : σ → Prop) [DecidablePred cond] (body : σ → Option σ)

/-- The state in which the loop is left after at most `fuel` rounds. -/
def run : ℕ → σ → Option σ
  | 0, s => if cond s then none else some s
  | fuel + 1, s => if cond s then (body s).bind (run fuel) else some s

variable {cond body} {s s' r r' : σ} {fuel fuel' : ℕ}

theorem run_of_not (h : ¬ cond s) : run cond body fuel s = some s := by
  cases fuel with
  | zero => exact if_neg h
  | succ fuel => exact if_neg h

theorem run_succ (h : cond s) (hbody : body s = some s') :
    run cond body (fuel + 1) s = run cond body fuel s' := by
  rw [run, if_pos h, hbody]
  rfl

/-- More fuel does not change the result. -/
theorem run_of_le (hle : fuel ≤ fuel') (h : run cond body fuel s = some r) :
    run cond body fuel' s = some r := by
  induction fuel generalizing fuel' s with
  | zero =>
    by_cases hs : cond s
    · simp [run, hs] at h
    · rw [run_of_not hs] at h ⊢
      exact h
  | succ fuel ih =>
    by_cases hs : cond s
    · obtain ⟨k, rfl⟩ := Nat.exists_eq_add_of_lt hle
      rw [run, if_pos hs, Option.bind_eq_some_iff] at h
      obtain ⟨s', hbody, hrun⟩ := h
      rw [run_succ hs hbody]
      exact ih (by omega) hrun
    · rw [run_of_not hs] at h ⊢
      exact h

theorem run_unique (h : run cond body fuel s = some r) (h' : run cond body fuel' s = some r') :
    r = r' := by
  rcases Nat.le_total fuel fuel' with hle | hle
  · exact Option.some.inj ((run_of_le hle h).symm.trans h')
  · exact Option.some.inj (h.symm.trans (run_of_le hle h'))

/-- A loop stays in what its body preserves, so it is never left if that implies the condition. -/
theorem run_eq_none (Inv : σ → Prop) (hcond : ∀ s, Inv s → cond s)
    (hbody : ∀ s s', Inv s → body s = some s' → Inv s') (hs : Inv s) :
    run cond body fuel s = none := by
  induction fuel generalizing s with
  | zero => exact if_pos (hcond s hs)
  | succ fuel ih =>
    cases hstep : body s with
    | none => simp [run, hcond s hs, hstep]
    | some s' =>
      rw [run_succ (hcond s hs) hstep]
      exact ih (hbody s s' hs hstep)

end WhileLoop
