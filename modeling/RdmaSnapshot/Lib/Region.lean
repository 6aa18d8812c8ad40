import Mathlib.Data.Nat.Notation

/-!
# Regions of memory cells

A region assigns a value to every address. A program changes it by storing lists of consecutive
cells, and what a region holds is described by the lists that are at given addresses.
-/

/-- The contents of the cells, by address. -/
abbrev Region (α : Type) := ℕ → α

namespace Region

variable {α : Type} {m : Region α} {a b i j n : ℕ} {l l' : List α} {x : α}

/-- Stores a list at address `a`. -/
def write (m : Region α) (a : ℕ) (l : List α) : Region α := fun i =>
  if a ≤ i then l.getD (i - a) (m i) else m i

theorem write_of_lt (h : i < a) : m.write a l i = m i :=
  if_neg (by omega)

theorem write_of_ge (h : a + l.length ≤ i) : m.write a l i = m i := by
  rw [write, if_pos (by omega), List.getD_eq_getElem?_getD, List.getElem?_eq_none (by omega)]
  rfl

theorem write_add (h : l[j]? = some x) : m.write a l (a + j) = x := by
  rw [write, if_pos (by omega), Nat.add_sub_cancel_left, List.getD_eq_getElem?_getD, h]
  rfl

/-- The `n` cells at address `a`. -/
def read (m : Region α) (a n : ℕ) : List α := (List.range n).map fun i => m (a + i)

@[simp] theorem length_read (m : Region α) (a n : ℕ) : (m.read a n).length = n := by simp [read]

theorem getElem?_read (h : j < n) : (m.read a n)[j]? = some (m (a + j)) := by
  simp [read, h]

/-! ## Contents -/

/-- The list `l` is at address `a`. -/
def Contains (m : Region α) (a : ℕ) (l : List α) : Prop := ∀ j x, l[j]? = some x → m (a + j) = x

theorem contains_nil (m : Region α) (a : ℕ) : m.Contains a [] := by
  intro j x h
  cases h

theorem contains_singleton : m.Contains a [x] ↔ m a = x := by
  constructor
  · intro h
    exact h 0 x rfl
  · rintro h (_ | j) y hy
    · cases hy
      exact h
    · cases hy

/-- A list is at an address exactly if its parts are one behind the other. -/
theorem contains_append :
    m.Contains a (l ++ l') ↔ m.Contains a l ∧ m.Contains (a + l.length) l' := by
  constructor
  · intro h
    refine ⟨fun j x hx => h j x ?_, fun j x hx => ?_⟩
    · rw [List.getElem?_append_left (List.getElem?_eq_some_iff.1 hx).1]
      exact hx
    · rw [Nat.add_assoc]
      refine h _ x ?_
      rw [List.getElem?_append_right (by omega), Nat.add_sub_cancel_left]
      exact hx
  · rintro ⟨hl, hl'⟩ j x hx
    rcases Nat.lt_or_ge j l.length with hj | hj
    · rw [List.getElem?_append_left hj] at hx
      exact hl j x hx
    · rw [List.getElem?_append_right hj] at hx
      have h := hl' (j - l.length) x hx
      rwa [show a + l.length + (j - l.length) = a + j by omega] at h

theorem Contains.take (h : m.Contains a l) (n : ℕ) : m.Contains a (l.take n) := by
  rw [← List.take_append_drop n l, contains_append] at h
  exact h.1

/-- What is at an address is read there. -/
theorem Contains.read_eq (h : m.Contains a l) : m.read a l.length = l := by
  refine List.ext_getElem? fun j => ?_
  rcases Nat.lt_or_ge j l.length with hj | hj
  · rw [getElem?_read hj, h j _ (List.getElem?_eq_getElem hj), List.getElem?_eq_getElem hj]
  · rw [List.getElem?_eq_none (by simpa using hj), List.getElem?_eq_none hj]

/-- The cells of a region in which `l` is at the front and nothing else differs from `m`. -/
theorem Contains.read_eq_append_drop {m' : Region α} (h : m'.Contains a l) (hn : l.length ≤ n)
    (hframe : ∀ i, a + l.length ≤ i → m' i = m i) :
    m'.read a n = l ++ (m.read a n).drop l.length := by
  refine List.ext_getElem? fun j => ?_
  rcases Nat.lt_or_ge j l.length with hj | hj
  · rw [getElem?_read (by omega), List.getElem?_append_left hj, List.getElem?_eq_getElem hj,
      h j _ (List.getElem?_eq_getElem hj)]
  · rw [List.getElem?_append_right hj, List.getElem?_drop, Nat.add_sub_cancel' hj]
    rcases Nat.lt_or_ge j n with hjn | hjn
    · rw [getElem?_read hjn, getElem?_read hjn, hframe _ (by omega)]
    · rw [List.getElem?_eq_none (by simpa using hjn), List.getElem?_eq_none (by simpa using hjn)]

/-- A list that was stored is there. -/
theorem contains_write (m : Region α) (a : ℕ) (l : List α) : (m.write a l).Contains a l :=
  fun _ _ => write_add

/-- A region that has a list at an address and is as before elsewhere is the region after its
store. -/
theorem Contains.eq_write {m' : Region α} (h : m'.Contains a l)
    (hframe : ∀ i, i < a ∨ a + l.length ≤ i → m' i = m i) : m' = m.write a l := by
  funext i
  rcases Nat.lt_or_ge i a with hi | hi
  · rw [hframe i (.inl hi), write_of_lt hi]
  · rcases Nat.lt_or_ge i (a + l.length) with hlt | hge
    · obtain ⟨j, rfl⟩ := Nat.exists_eq_add_of_le hi
      have hj : l[j]? = some (l.get ⟨j, by omega⟩) := List.getElem?_eq_getElem _
      rw [h j _ hj, write_add hj]
    · rw [hframe i (.inr hge), write_of_ge hge]

/-- A store elsewhere does not change what is at an address. -/
theorem contains_write_iff (hdisj : a + l.length ≤ b ∨ b + l'.length ≤ a) :
    (m.write b l').Contains a l ↔ m.Contains a l := by
  have heq : ∀ j x, l[j]? = some x → m.write b l' (a + j) = m (a + j) := by
    intro j x hx
    have hj := (List.getElem?_eq_some_iff.1 hx).1
    rcases hdisj with hb | hb
    · exact write_of_lt (by omega)
    · exact write_of_ge (by omega)
  constructor
  · intro h j x hx
    rw [← heq j x hx]
    exact h j x hx
  · intro h j x hx
    rw [heq j x hx]
    exact h j x hx

/-! ## Several stores -/

/-- One store: where, and what. -/
structure Store (α : Type) where
  address : ℕ
  cells : List α

/-- The store is inside the `n` cells at address `a`. -/
def Store.Within (st : Store α) (a n : ℕ) : Prop :=
  a ≤ st.address ∧ st.address + st.cells.length ≤ a + n

/-- The region after some stores. -/
def stores (m : Region α) (sts : List (Store α)) : Region α :=
  sts.foldl (fun m st => m.write st.address st.cells) m

/-- Stores into some cells do not change the other ones. -/
theorem stores_of_forall {sts : List (Store α)} (hsts : ∀ st ∈ sts, st.Within a n)
    (hi : i < a ∨ a + n ≤ i) : m.stores sts i = m i := by
  induction sts generalizing m with
  | nil => rfl
  | cons st sts ih =>
    have hst := hsts st List.mem_cons_self
    have hrest : (m.write st.address st.cells).stores sts i = m.write st.address st.cells i :=
      ih fun st' h => hsts st' (List.mem_cons_of_mem _ h)
    change (m.write st.address st.cells).stores sts i = m i
    rw [hrest]
    unfold Store.Within at hst
    rcases hi with hi | hi
    · exact write_of_lt (by omega)
    · exact write_of_ge (by omega)

end Region
