import Mathlib.Data.List.Basic

/-!
# Lanes: queues that are first in, first out per lane

A list of requests, oldest first, in which every request belongs to a lane. A request may leave
the list when it is the oldest of its lane, so every lane is a queue of its own while different
lanes are not ordered. Some requests are signaled: their leaving can be observed. A lane that ends
with a signaled request is empty as soon as no signaled request is left.
-/

namespace Fifo

variable {α κ : Type*} {l l' : List α} {i : ℕ} {x : α}

/-- Request `x` at position `i` is the oldest of its lane. -/
structure Oldest (lane : α → κ) (l : List α) (i : ℕ) (x : α) : Prop where
  getElem : l[i]? = some x
  oldest : ∀ y ∈ l.take i, lane y ≠ lane x

/-- Splitting the list at a position. -/
theorem exists_split (h : l[i]? = some x) : l = l.take i ++ x :: l.drop (i + 1) := by
  obtain ⟨hi, rfl⟩ := List.getElem?_eq_some_iff.1 h
  rw [List.getElem_cons_drop, List.take_append_drop]

/-- Another request stays in the list. -/
theorem Oldest.mem_eraseIdx {lane : α → κ} {y : α} (h : Oldest lane l i x) (hy : y ∈ l)
    (hne : y ≠ x) : y ∈ l.eraseIdx i := by
  obtain ⟨j, hj⟩ := List.mem_iff_getElem?.1 hy
  refine List.mem_eraseIdx_iff_getElem?.2 ⟨j, ?_, hj⟩
  rintro rfl
  exact hne (Option.some.inj (hj.symm.trans h.getElem))

/-- Requests of one lane, among them the one that leaves: they lose their oldest. -/
theorem filter_eq_cons {lane : α → κ} (h : Oldest lane l i x) (p : α → Bool) (hx : p x = true)
    (hp : ∀ y, p y = true → lane y = lane x) :
    l.filter p = x :: (l.eraseIdx i).filter p := by
  have hnone : (l.take i).filter p = [] := by
    rw [List.filter_eq_nil_iff]
    intro y hy hpy
    exact h.oldest y hy (hp y hpy)
  conv_lhs => rw [exists_split h.getElem]
  rw [List.eraseIdx_eq_take_drop_succ, List.filter_append, List.filter_append, hnone,
    List.filter_cons_of_pos hx]
  rfl

/-- Requests that do not include the one that leaves stay. -/
theorem filter_eraseIdx_of_neg (h : l[i]? = some x) (p : α → Bool) (hx : p x = false) :
    (l.eraseIdx i).filter p = l.filter p := by
  conv_rhs => rw [exists_split h]
  rw [List.eraseIdx_eq_take_drop_succ, List.filter_append, List.filter_append,
    List.filter_cons_of_neg (by simp [hx])]

section Followed

variable {p q : α → Prop}

/-- Every request with `p` is followed by one with `q`. -/
def Followed (p q : α → Prop) : List α → Prop
  | [] => True
  | x :: l => (p x → ∃ y ∈ l, q y) ∧ Followed p q l

theorem followed_of_forall (h : ∀ x ∈ l, ¬ p x) : Followed p q l := by
  induction l with
  | nil => trivial
  | cons x l ih =>
    exact ⟨fun hx => absurd hx (h x List.mem_cons_self),
      ih fun y hy => h y (List.mem_cons_of_mem _ hy)⟩

theorem Followed.append (h : Followed p q l) (h' : Followed p q l') : Followed p q (l ++ l') := by
  induction l with
  | nil => exact h'
  | cons x l ih =>
    refine ⟨fun hx => ?_, ih h.2⟩
    obtain ⟨y, hy, hq⟩ := h.1 hx
    exact ⟨y, List.mem_append_left _ hy, hq⟩

theorem followed_flatMap {β : Type*} {g : β → List α} {bs : List β}
    (h : ∀ b ∈ bs, Followed p q (g b)) : Followed p q (bs.flatMap g) := by
  induction bs with
  | nil => trivial
  | cons b bs ih =>
    rw [List.flatMap_cons]
    exact (h b List.mem_cons_self).append (ih fun b' hb' => h b' (List.mem_cons_of_mem _ hb'))

theorem followed_map {β : Type*} {g : β → α} {bs : List β}
    (h : Followed (fun b => p (g b)) (fun b => q (g b)) bs) : Followed p q (bs.map g) := by
  induction bs with
  | nil => trivial
  | cons b bs ih =>
    refine ⟨fun hb => ?_, ih h.2⟩
    obtain ⟨b', hb', hq⟩ := h.1 hb
    exact ⟨g b', List.mem_map.2 ⟨b', hb', rfl⟩, hq⟩

/-- A request that is in the list has what follows it in the list as well. -/
theorem Followed.exists_of_mem (h : Followed p q l) (hx : x ∈ l) (hp : p x) : ∃ y ∈ l, q y := by
  induction l with
  | nil => cases hx
  | cons a l ih =>
    have htail : ∃ y ∈ l, q y := by
      rcases List.mem_cons.1 hx with rfl | hx
      · exact h.1 hp
      · exact ih h.2 hx
    obtain ⟨y, hy, hq⟩ := htail
    exact ⟨y, List.mem_cons_of_mem _ hy, hq⟩

/-- A request does not leave before those of its lane that it follows. -/
theorem Followed.erase {lane : α → κ} (ho : Oldest lane l i x)
    (hlane : ∀ x y, p x → q y → lane x = lane y) (h : Followed p q l) :
    Followed p q (l.eraseIdx i) := by
  induction l generalizing i with
  | nil => simpa using h
  | cons a l ih =>
    cases i with
    | zero => exact h.2
    | succ i =>
      have ho' : Oldest lane l i x :=
        ⟨ho.getElem, fun y hy => ho.oldest y (List.mem_cons_of_mem _ hy)⟩
      refine ⟨fun ha => ?_, ih ho' h.2⟩
      obtain ⟨y, hy, hq⟩ := h.1 ha
      refine ⟨y, ho'.mem_eraseIdx hy ?_, hq⟩
      rintro rfl
      exact ho.oldest a List.mem_cons_self (hlane a y ha hq)

end Followed

/-- The requests of lane `q`. -/
def lane [DecidableEq κ] (f : α → κ) (q : κ) (l : List α) : List α :=
  l.filter fun x => f x = q

variable [DecidableEq κ] {f : α → κ} {q : κ} {sig : α → Bool}

@[simp] theorem lane_nil : lane f q ([] : List α) = [] := rfl

@[simp] theorem lane_append : lane f q (l ++ l') = lane f q l ++ lane f q l' :=
  List.filter_append ..

@[simp] theorem lane_cons :
    lane f q (x :: l) = if f x = q then x :: lane f q l else lane f q l := by
  by_cases h : f x = q <;> simp [lane, h]

theorem mem_lane {y : α} : y ∈ lane f q l ↔ y ∈ l ∧ f y = q := by
  simp [lane]

theorem lane_eq_nil_iff : lane f q l = [] ↔ ∀ x ∈ l, f x ≠ q := by
  simp [lane, List.filter_eq_nil_iff]

theorem lane_map {β : Type*} (g : β → α) (l : List β) :
    lane f q (l.map g) = (lane (fun b => f (g b)) q l).map g := by
  simp only [lane, List.filter_map]
  rfl

/-- Lane `q` is empty or its newest request is signaled. -/
def Ended (sig : α → Bool) (f : α → κ) (q : κ) (l : List α) : Prop :=
  ∀ x ∈ (lane f q l).getLast?, sig x = true

theorem ended_of_lane_eq_nil (h : lane f q l = []) : Ended sig f q l := by
  simp [Ended, h]

theorem ended_map {β : Type*} {g : β → α} {l : List β}
    (h : Ended (fun b => sig (g b)) (fun b => f (g b)) q l) : Ended sig f q (l.map g) := by
  intro x hx
  rw [lane_map, List.getLast?_map, Option.mem_def, Option.map_eq_some_iff] at hx
  obtain ⟨b, hb, rfl⟩ := hx
  exact h b hb

/-- If all requests are signaled, every lane ends with a signaled one. -/
theorem ended_of_forall (h : ∀ x ∈ l, sig x = true) : Ended sig f q l := by
  intro x hx
  exact h x (mem_lane.1 (List.mem_of_getLast? hx)).1

/-- The newer part decides if the lane has a request in it. -/
theorem Ended.append_right (hne : lane f q l' ≠ []) (h : Ended sig f q l') :
    Ended sig f q (l ++ l') := by
  intro x hx
  rw [lane_append, List.getLast?_append_of_ne_nil _ hne] at hx
  exact h x hx

theorem Ended.append (h : Ended sig f q l) (h' : Ended sig f q l') : Ended sig f q (l ++ l') := by
  by_cases hne : lane f q l' = []
  · intro x hx
    rw [lane_append, hne, List.append_nil] at hx
    exact h x hx
  · exact h'.append_right hne

/-- Concatenating parts that all end with a signaled request. -/
theorem ended_flatMap {β : Type*} {g : β → List α} {bs : List β}
    (h : ∀ b ∈ bs, Ended sig f q (g b)) : Ended sig f q (bs.flatMap g) := by
  induction bs with
  | nil => exact ended_of_lane_eq_nil rfl
  | cons b bs ih =>
    rw [List.flatMap_cons]
    exact (h b List.mem_cons_self).append (ih fun b' hb' => h b' (List.mem_cons_of_mem _ hb'))

/-- A request leaves: every lane keeps its newest request, if it has one left. -/
theorem Ended.erase (ho : Oldest f l i x) (h : Ended sig f q l) :
    Ended sig f q (l.eraseIdx i) := by
  by_cases hx : f x = q
  · subst hx
    have hcons : lane f (f x) l = x :: lane f (f x) (l.eraseIdx i) :=
      filter_eq_cons ho _ (by simp) fun y hy => by simpa using hy
    intro y hy
    by_cases hne : lane f (f x) (l.eraseIdx i) = []
    · simp [hne] at hy
    · refine h y ?_
      rw [hcons, List.getLast?_cons_of_ne_nil hne]
      exact hy
  · have hsame : lane f q (l.eraseIdx i) = lane f q l :=
      filter_eraseIdx_of_neg ho.getElem _ (by simpa using hx)
    rw [Ended, hsame]
    exact h

/-- **Coverage.** When no signaled request is left, a lane that ends with a signaled request is
empty: everything posted on it has left. -/
theorem lane_eq_nil_of_ended (h : Ended sig f q l) (hsig : l.countP sig = 0) :
    lane f q l = [] := by
  by_contra hne
  have hlast := h _ (List.getLast?_eq_getLast_of_ne_nil hne)
  have hmem := (mem_lane.1 (List.getLast_mem hne)).1
  rw [List.countP_eq_zero] at hsig
  exact hsig _ hmem hlast

/-- A request leaves: the number of signaled requests drops by its own. -/
theorem countP_eraseIdx (sig : α → Bool) (h : l[i]? = some x) :
    (l.eraseIdx i).countP sig + (if sig x then 1 else 0) = l.countP sig := by
  conv_rhs => rw [exists_split h]
  rw [List.eraseIdx_eq_take_drop_succ, List.countP_append, List.countP_append, List.countP_cons]
  omega

/-- What is completed and what is still signaled add up to the same number. -/
theorem completed_add_countP (sig : α → Bool) (h : l[i]? = some x) (n : ℕ) :
    (if sig x then n + 1 else n) + (l.eraseIdx i).countP sig = n + l.countP sig := by
  rw [← countP_eraseIdx sig h]
  split <;> omega

end Fifo
