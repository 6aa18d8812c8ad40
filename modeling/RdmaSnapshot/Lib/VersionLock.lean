import Mathlib.Data.Nat.Notation
import Mathlib.Logic.Function.Basic

/-!
# Optimistic updates of a cell with a versioned lock

A cell holds a value and, apart from it, a lock word: a flag and a version. Values carry a stamp.
A client copies the value, later takes the lock if its version is the stamp of the copy, and then
either gives the lock back as it was or replaces the value and frees the lock with the new stamp.
The two words are read and written separately.

What makes this sound is that stamps of the values of a cell grow: then a copy whose stamp is the
version of the free lock word is the value of the cell.
-/

namespace VersionLock

variable {ι V : Type*}

structure Cell (V : Type*) where
  locked : Bool
  version : ℕ
  value : V

/-- What a client has of a cell. -/
inductive Grip (V : Type*)
  | none
  /-- A copy of a value of the cell. -/
  | copy (v : V)
  /-- The lock, with version `t`, while the value is still `v`. -/
  | locked (v : V) (t : ℕ)
  /-- The lock, with version `t`, after the value was replaced by `v`. -/
  | updated (v : V) (t : ℕ)

namespace Grip

def Holds : Grip V → Prop
  | .locked _ _ => True
  | .updated _ _ => True
  | _ => False

variable (stamp : V → ℕ)

/-- The grip agrees with the cell. -/
def Sound (cell : Cell V) : Grip V → Prop
  | .none => True
  | .copy v => stamp v ≤ stamp cell.value ∧ (stamp v = stamp cell.value → v = cell.value)
  | .locked v t => cell.locked = true ∧ cell.version = t ∧ cell.value = v
  | .updated v t => cell.locked = true ∧ cell.version = t ∧ cell.value = v ∧ stamp v = t

/-- A value the client has a copy of, and did not update, is older than `b`. -/
def Before (b : ℕ) : Grip V → Prop
  | .copy v => stamp v < b
  | .locked v _ => stamp v < b
  | _ => True

theorem Sound.before {stamp : V → ℕ} {cell : Cell V} {g : Grip V} {b : ℕ}
    (h : g.Sound stamp cell) (hb : stamp cell.value < b) : g.Before stamp b := by
  cases g with
  | none => trivial
  | copy v => exact Nat.lt_of_le_of_lt h.1 hb
  | locked v t =>
    show stamp v < b
    rwa [← h.2.2]
  | updated v t => trivial

theorem Sound.locked_of_holds {stamp : V → ℕ} {cell : Cell V} {g : Grip V}
    (h : g.Sound stamp cell) (hg : g.Holds) : cell.locked = true := by
  cases g with
  | none => exact hg.elim
  | copy v => exact hg.elim
  | locked v t => exact h.1
  | updated v t => exact h.1

/-- A grip without the lock depends only on the value. -/
theorem Sound.of_value {stamp : V → ℕ} {cell cell' : Cell V} {g : Grip V}
    (h : g.Sound stamp cell) (hg : ¬g.Holds) (hvalue : cell'.value = cell.value) :
    g.Sound stamp cell' := by
  cases g with
  | none => trivial
  | copy v => simpa only [Sound, hvalue] using h
  | locked v t => exact absurd trivial hg
  | updated v t => exact absurd trivial hg

end Grip

/-- A cell and what its clients have of it. -/
structure Consistent (stamp : V → ℕ) (cell : Cell V) (grip : ι → Grip V) : Prop where
  free : cell.locked = false → cell.version = stamp cell.value
  sound : ∀ c, (grip c).Sound stamp cell
  alone : ∀ c c', (grip c).Holds → (grip c').Holds → c = c'

namespace Consistent

variable [DecidableEq ι] {stamp : V → ℕ} {cell : Cell V} {grip : ι → Grip V} {c : ι} {v v' : V}
  {t : ℕ}

omit [DecidableEq ι] in
/-- While the lock is free nobody holds it. -/
theorem not_holds (h : Consistent stamp cell grip) (hfree : cell.locked = false) (c : ι) :
    ¬(grip c).Holds := by
  intro hc
  have hlocked := (h.sound c).locked_of_holds hc
  rw [hfree] at hlocked
  cases hlocked

omit [DecidableEq ι] in
theorem value_eq (h : Consistent stamp cell grip) (hc : grip c = .locked v t) :
    cell.value = v := by
  have hsound := h.sound c
  rw [hc] at hsound
  exact hsound.2.2

/-- A client whose grip is replaced by one without the lock, while the cell stays. -/
theorem replace {g : Grip V} (h : Consistent stamp cell grip) (hsound : g.Sound stamp cell)
    (hg : ¬g.Holds) : Consistent stamp cell (Function.update grip c g) where
  free := h.free
  sound c' := by
    by_cases hcc : c' = c
    · rwa [hcc, Function.update_self]
    · rw [Function.update_of_ne hcc]
      exact h.sound c'
  alone c₁ c₂ h₁ h₂ := by
    by_cases hc₁ : c₁ = c
    · rw [hc₁, Function.update_self] at h₁
      exact absurd h₁ hg
    · by_cases hc₂ : c₂ = c
      · rw [hc₂, Function.update_self] at h₂
        exact absurd h₂ hg
      · rw [Function.update_of_ne hc₁] at h₁
        rw [Function.update_of_ne hc₂] at h₂
        exact h.alone c₁ c₂ h₁ h₂

/-- The client copies the value. -/
theorem read (h : Consistent stamp cell grip) :
    Consistent stamp cell (Function.update grip c (.copy cell.value)) :=
  h.replace ⟨Nat.le_refl _, fun _ => rfl⟩ not_false

theorem forget (h : Consistent stamp cell grip) :
    Consistent stamp cell (Function.update grip c .none) :=
  h.replace trivial not_false

/-- The cell changes under a client that has the lock afterwards or had it before, so that nobody
else has it. -/
theorem change {cell' : Cell V} {g : Grip V}
    (hfree : cell'.locked = false → cell'.version = stamp cell'.value)
    (hothers : ∀ c', c' ≠ c → ¬(grip c').Holds ∧ (grip c').Sound stamp cell')
    (hsound : g.Sound stamp cell') : Consistent stamp cell' (Function.update grip c g) where
  free := hfree
  sound c' := by
    by_cases hcc : c' = c
    · rwa [hcc, Function.update_self]
    · rw [Function.update_of_ne hcc]
      exact (hothers c' hcc).2
  alone c₁ c₂ h₁ h₂ := by
    have hown (c' : ι) (hc' : (Function.update grip c g c').Holds) : c' = c := by
      by_contra hcc
      rw [Function.update_of_ne hcc] at hc'
      exact (hothers c' hcc).1 hc'
    rw [hown c₁ h₁, hown c₂ h₂]

variable (h : Consistent stamp cell grip)

include h

omit [DecidableEq ι] in
theorem others (hc : (grip c).Holds) {c' : ι} (hcc : c' ≠ c) : ¬(grip c').Holds :=
  fun hc' => hcc (h.alone c' c hc' hc)

/-- The client takes the lock, whose version is the stamp of its copy: the copy is the value. -/
theorem acquire (hc : grip c = .copy v)
    (hfree : cell.locked = false) (hversion : cell.version = stamp v) :
    Consistent stamp ⟨true, t, cell.value⟩ (Function.update grip c (.locked v t)) := by
  have hcopy := h.sound c
  rw [hc] at hcopy
  have hvalue : v = cell.value := hcopy.2 (hversion.symm.trans (h.free hfree))
  refine change ?_ ?_ ⟨rfl, rfl, hvalue.symm⟩
  · intro hlocked
    cases hlocked
  · intro c' _
    have hnot := h.not_holds hfree c'
    exact ⟨hnot, (h.sound c').of_value hnot rfl⟩

/-- The client replaces the value by one with a larger stamp. -/
theorem install (hc : grip c = .locked v t) (hlt : stamp v < stamp v') (hstamp : stamp v' = t) :
    Consistent stamp { cell with value := v' } (Function.update grip c (.updated v' t)) := by
  have hheld := h.sound c
  rw [hc] at hheld
  refine change ?_ ?_ ⟨hheld.1, hheld.2.1, rfl, hstamp⟩
  · intro hfree
    exact absurd hheld.1 (by simp [show cell.locked = false from hfree])
  · intro c' hcc
    have hnot : ¬(grip c').Holds := h.others (by rw [hc]; trivial) hcc
    refine ⟨hnot, ?_⟩
    have hsound := h.sound c'
    cases hg : grip c' with
    | none => trivial
    | copy w =>
      rw [hg] at hsound
      have hle : stamp w ≤ stamp v := by
        rw [← hheld.2.2]
        exact hsound.1
      have hlt' := Nat.lt_of_le_of_lt hle hlt
      exact ⟨Nat.le_of_lt hlt', fun heq => absurd heq (Nat.ne_of_lt hlt')⟩
    | locked w u => exact (hnot (by rw [hg]; trivial)).elim
    | updated w u => exact (hnot (by rw [hg]; trivial)).elim

/-- The client gives the lock back as it was. -/
theorem revert (hc : grip c = .locked v t) :
    Consistent stamp ⟨false, stamp v, cell.value⟩ (Function.update grip c .none) := by
  refine change ?_ ?_ trivial
  · intro _
    exact congrArg stamp (h.value_eq hc).symm
  · intro c' hcc
    have hnot : ¬(grip c').Holds := h.others (by rw [hc]; trivial) hcc
    exact ⟨hnot, (h.sound c').of_value hnot rfl⟩

/-- The client frees the lock of the value it installed. -/
theorem release (hc : grip c = .updated v t) :
    Consistent stamp ⟨false, t, cell.value⟩ (Function.update grip c .none) := by
  have hheld := h.sound c
  rw [hc] at hheld
  refine change ?_ ?_ trivial
  · intro _
    show t = stamp cell.value
    rw [hheld.2.2.1, hheld.2.2.2]
  · intro c' hcc
    have hnot : ¬(grip c').Holds := h.others (by rw [hc]; trivial) hcc
    exact ⟨hnot, (h.sound c').of_value hnot rfl⟩

end Consistent

end VersionLock
