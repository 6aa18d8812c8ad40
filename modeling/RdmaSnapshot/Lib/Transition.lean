import Mathlib.Tactic.TypeStar

/-!
# Reachable states of a partial transition function

A machine is given by a predicate on initial states and a transition function that is undefined
where an action is not enabled. States are reachable through actions that meet a condition on the
state they are taken in; with the trivial condition these are all reachable states.
-/

namespace Transition

variable {σ α : Type*} {init : σ → Prop} {step : σ → α → Option σ} {ok : σ → α → Prop}

/-- The states reached from an initial state by steps that all meet `ok`. -/
inductive ReachableBy (init : σ → Prop) (step : σ → α → Option σ) (ok : σ → α → Prop) : σ → Prop
  | start {s : σ} (hs : init s) : ReachableBy init step ok s
  | next {s s' : σ} {a : α} (hs : ReachableBy init step ok s) (hok : ok s a)
      (ha : step s a = some s') : ReachableBy init step ok s'

/-- Reachability by any steps. -/
abbrev Reachable (init : σ → Prop) (step : σ → α → Option σ) : σ → Prop :=
  ReachableBy init step fun _ _ => True

/-- **Invariant rule.** What holds initially and is preserved by every step that meets the
condition holds in every state reached by such steps. -/
theorem ReachableBy.invariant {P : σ → Prop} (hinit : ∀ s, init s → P s)
    (hstep : ∀ s a s', ReachableBy init step ok s → P s → ok s a → step s a = some s' → P s')
    {s : σ} (h : ReachableBy init step ok s) : P s := by
  induction h with
  | start hs => exact hinit _ hs
  | next hs hok ha ih => exact hstep _ _ _ hs ih hok ha

/-- A weaker condition on steps reaches more states. -/
theorem ReachableBy.mono {ok' : σ → α → Prop} (hok : ∀ s a, ok s a → ok' s a) {s : σ}
    (h : ReachableBy init step ok s) : ReachableBy init step ok' s := by
  induction h with
  | start hs => exact .start hs
  | next _ ha hs ih => exact .next ih (hok _ _ ha) hs

/-- Whatever is reached under a condition is reachable. -/
theorem ReachableBy.reachable {s : σ} (h : ReachableBy init step ok s) :
    Reachable init step s :=
  h.mono fun _ _ _ => trivial

/-- The states reached from states that are reached are reached. -/
theorem ReachableBy.trans {P : σ → Prop} (hP : ∀ s, P s → ReachableBy init step ok s) {s : σ}
    (h : ReachableBy P step ok s) : ReachableBy init step ok s := by
  induction h with
  | start hs => exact hP _ hs
  | next _ hok ha ih => exact .next ih hok ha

/-- **Progress rule.** If steps from any state with `P` lead to a state with `Q`, or to one with `P`
and a smaller measure, then steps lead to a state with `Q`. -/
theorem ReachableBy.exists_of_measure {P Q : σ → Prop} (m : σ → Nat)
    (hstep : ∀ s, P s → (∃ s', ReachableBy (· = s) step ok s' ∧ Q s') ∨
      ∃ s', ReachableBy (· = s) step ok s' ∧ P s' ∧ m s' < m s) {s : σ} (h : P s) :
    ∃ s', ReachableBy (· = s) step ok s' ∧ Q s' := by
  induction hn : m s using Nat.strongRecOn generalizing s with
  | _ n ih =>
    obtain hdone | ⟨s₁, hs₁, hP, hlt⟩ := hstep s h
    · exact hdone
    · obtain ⟨s', hs', hQ⟩ := ih (m s₁) (hn ▸ hlt) hP rfl
      refine ⟨s', hs'.trans fun t ht => ?_, hQ⟩
      rw [ht]
      exact hs₁

/-- There are steps from `s` to `s'`. -/
abbrev Leads (step : σ → α → Option σ) (s s' : σ) : Prop := Reachable (· = s) step s'

theorem Leads.reachable {s s' : σ} (h : Leads step s s') (hs : Reachable init step s) :
    Reachable init step s' := by
  refine ReachableBy.trans (fun t ht => ?_) h
  rw [ht]
  exact hs

/-- Runs a schedule as long as every step passes `check`. -/
def runIf (step : σ → α → Option σ) (check : σ → α → Bool) (s : σ) : List α → Option σ
  | [] => some s
  | a :: as =>
    if check s a then (step s a).bind fun s' => runIf step check s' as else none

/-- Runs a schedule. -/
def run (step : σ → α → Option σ) : σ → List α → Option σ := runIf step fun _ _ => true

/-- A schedule whose steps pass a check of the condition leads to a state reached under it. -/
theorem ReachableBy.runIf {check : σ → α → Bool} (hok : ∀ s a, check s a = true → ok s a)
    {s s' : σ} {as : List α} (h : ReachableBy init step ok s)
    (hrun : runIf step check s as = some s') : ReachableBy init step ok s' := by
  induction as generalizing s with
  | nil =>
    obtain rfl : s = s' := Option.some.inj hrun
    exact h
  | cons a as ih =>
    rw [Transition.runIf] at hrun
    split at hrun
    · rename_i hcheck
      obtain ⟨t, ht, hrun⟩ := Option.bind_eq_some_iff.1 hrun
      exact ih (h.next (hok s a hcheck) ht) hrun
    · cases hrun

/-- A schedule from an initial state leads to a reachable state. -/
theorem Reachable.run {s s' : σ} {as : List α} (hs : init s)
    (hrun : Transition.run step s as = some s') : Reachable init step s' :=
  ReachableBy.runIf (fun _ _ _ => trivial) (.start hs) hrun

/-- What holds at the end of a schedule whose steps meet a condition holds in a state reached
under it. -/
theorem exists_reachableBy (step : σ → α → Option σ) (ok : σ → α → Prop)
    [∀ s a, Decidable (ok s a)] {s₀ : σ} (hs₀ : init s₀) (as : List α) (P : σ → Prop)
    [DecidablePred P]
    (h : (Transition.runIf step (fun s a => decide (ok s a)) s₀ as).any (fun s => decide (P s)) =
      true) : ∃ s, ReachableBy init step ok s ∧ P s := by
  obtain ⟨s, hrun, hP⟩ := (Option.any_eq_true ..).1 h
  exact ⟨s, ReachableBy.runIf (fun _ _ => of_decide_eq_true) (.start hs₀) hrun,
    of_decide_eq_true hP⟩

end Transition
