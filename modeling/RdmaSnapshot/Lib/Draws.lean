import Mathlib.Data.Finset.Card
import Mathlib.Data.Finset.Image
import RdmaSnapshot.Lib.OrderedSet

/-!
# Computations that draw from a stream

A randomised program takes one value after the other from an infinite stream. What it returns on
every stream is a postcondition; `none` is a program that gives up, or whose loop has not ended
after the rounds that the fuel allows.
-/

/-- A program that draws from a stream. -/
abbrev Draws (δ α : Type) := StateT (ℕ → δ) Option α

namespace Draws

variable {δ α β : Type} {m : Draws δ α} {f : α → Draws δ β} {P P' : α → Prop} {Q : β → Prop}
  {s s' : ℕ → δ} {a : α} {b : β} {fuel n : ℕ}

/-- The stream after its first `n` values. -/
def skip (s : ℕ → δ) (n : ℕ) : ℕ → δ := fun i => s (n + i)

theorem skip_zero (s : ℕ → δ) : skip s 0 = s := by
  funext i
  rw [skip, Nat.zero_add]

theorem skip_skip (s : ℕ → δ) (n n' : ℕ) : skip (skip s n) n' = skip s (n + n') := by
  funext i
  simp only [skip, Nat.add_assoc]

/-- The next value of the stream. -/
def draw : Draws δ δ := fun s => some (s 0, skip s 1)

/-- A `do`-`while` loop that ends with a value that is accepted. -/
def repeatUntil (m : Draws δ α) (accept : α → Prop) [DecidablePred accept] : ℕ → Draws δ α
  | 0 => failure
  | fuel + 1 => do
      let a ← m
      if accept a then pure a else repeatUntil m accept fuel

/-! ## Runs -/

theorem run_bind_eq_some :
    (m >>= f) s = some (b, s') ↔ ∃ a s₁, m s = some (a, s₁) ∧ f a s₁ = some (b, s') := by
  change ((m s).bind fun p => f p.1 p.2) = some (b, s') ↔ _
  rw [Option.bind_eq_some_iff]
  exact ⟨fun ⟨p, h, h'⟩ => ⟨p.1, p.2, h, h'⟩, fun ⟨a, s₁, h, h'⟩ => ⟨(a, s₁), h, h'⟩⟩

theorem run_pure_eq_some {a' : α} : (pure a : Draws δ α) s = some (a', s') ↔ a = a' ∧ s = s' := by
  change some (a, s) = some (a', s') ↔ _
  rw [Option.some.injEq, Prod.mk.injEq]

/-- In a run of a loop over a list there is a run for each element, after those before it. -/
theorem run_mapM_append {g : α → Draws δ β} {l l' : List α} {x : α} {bs : List β}
    (h : (l ++ x :: l').mapM g s = some (bs, s')) :
    ∃ bs₁ s₁ b s₂, l.mapM g s = some (bs₁, s₁) ∧ g x s₁ = some (b, s₂) ∧
      bs[l.length]? = some b := by
  induction l generalizing s s' bs with
  | nil =>
    rw [List.nil_append, List.mapM_cons, run_bind_eq_some] at h
    obtain ⟨b, s₁, hx, hrest⟩ := h
    rw [run_bind_eq_some] at hrest
    obtain ⟨bs', s₂, -, hpure⟩ := hrest
    obtain ⟨rfl, -⟩ := run_pure_eq_some.1 hpure
    exact ⟨[], s, b, s₁, rfl, hx, rfl⟩
  | cons y l ih =>
    rw [List.cons_append, List.mapM_cons, run_bind_eq_some] at h
    obtain ⟨c, s₁, hy, hrest⟩ := h
    rw [run_bind_eq_some] at hrest
    obtain ⟨bs', s₂, hbs', hpure⟩ := hrest
    obtain ⟨rfl, -⟩ := run_pure_eq_some.1 hpure
    obtain ⟨bs₁, s₃, b, s₄, hl, hx, hb⟩ := ih hbs'
    refine ⟨c :: bs₁, s₃, b, s₄, ?_, hx, by simpa using hb⟩
    rw [List.mapM_cons, run_bind_eq_some]
    refine ⟨c, s₁, hy, ?_⟩
    rw [run_bind_eq_some]
    exact ⟨bs₁, s₃, hl, rfl⟩

/-- A loop over a list ends if its body does wherever the loop comes to. -/
theorem exists_run_mapM {g : α → Draws δ β} {l : List α}
    (h : ∀ l₁ x l₂ bs s₁, l = l₁ ++ x :: l₂ → l₁.mapM g s = some (bs, s₁) →
      ∃ b s₂, g x s₁ = some (b, s₂)) : ∃ bs s', l.mapM g s = some (bs, s') := by
  induction l generalizing s with
  | nil => exact ⟨[], s, rfl⟩
  | cons x l ih =>
    obtain ⟨b, s₁, hx⟩ := h [] x l [] s rfl rfl
    have hcons : ∀ {l bs s'}, l.mapM g s₁ = some (bs, s') →
        (x :: l).mapM g s = some (b :: bs, s') := by
      intro l bs s' hl
      rw [List.mapM_cons, run_bind_eq_some]
      exact ⟨b, s₁, hx, run_bind_eq_some.2 ⟨bs, s', hl, rfl⟩⟩
    obtain ⟨bs, s', hl⟩ := ih fun l₁ y l₂ bs s₂ hsplit hrun =>
      h (x :: l₁) y l₂ (b :: bs) s₂ (by rw [hsplit, List.cons_append]) (hcons hrun)
    exact ⟨b :: bs, s', hcons hl⟩

/-! ## Postconditions -/

/-- Whatever the stream, if the program ends it returns a value with the property. -/
def Yields (m : Draws δ α) (P : α → Prop) : Prop := ∀ s a s', m s = some (a, s') → P a

theorem Yields.imp (hm : Yields m P) (h : ∀ a, P a → P' a) : Yields m P' :=
  fun s a s' hrun => h a (hm s a s' hrun)

theorem Yields.and (hm : Yields m P) (hm' : Yields m P') : Yields m fun a => P a ∧ P' a :=
  fun s a s' hrun => ⟨hm s a s' hrun, hm' s a s' hrun⟩

theorem yields_pure (h : P a) : Yields (pure a : Draws δ α) P := by
  intro s a' s' hrun
  obtain ⟨rfl, -⟩ := run_pure_eq_some.1 hrun
  exact h

theorem yields_failure : Yields (failure : Draws δ α) P := by
  intro s a s' hrun
  cases hrun

theorem Yields.bind (hm : Yields m P) (hf : ∀ a, P a → Yields (f a) Q) : Yields (m >>= f) Q := by
  intro s b s' hrun
  obtain ⟨a, s₁, ha, hb⟩ := run_bind_eq_some.1 hrun
  exact hf a (hm s a s₁ ha) s₁ b s' hb

/-- Nothing has to be known about the first part. -/
theorem yields_bind (hf : ∀ a, Yields (f a) Q) : Yields (m >>= f) Q := by
  intro s b s' hrun
  obtain ⟨a, s₁, -, hb⟩ := run_bind_eq_some.1 hrun
  exact hf a s₁ b s' hb

theorem yields_ite {c : Prop} [Decidable c] {m' : Draws δ α} (h : c → Yields m P)
    (h' : ¬ c → Yields m' P) : Yields (if c then m else m') P := by
  split
  · next hc => exact h hc
  · next hc => exact h' hc

theorem Yields.mapM {g : α → Draws δ β} {R : α → β → Prop} {l : List α}
    (h : ∀ x ∈ l, Yields (g x) (R x)) : Yields (l.mapM g) (List.Forall₂ R l) := by
  induction l with
  | nil => exact yields_pure .nil
  | cons x l ih =>
    rw [List.mapM_cons]
    refine (h x List.mem_cons_self).bind fun b hb => ?_
    refine (ih fun y hy => h y (List.mem_cons_of_mem _ hy)).bind fun bs hbs => ?_
    exact yields_pure (.cons hb hbs)

theorem Yields.mapM_forall {g : α → Draws δ β} {l : List α} (h : ∀ x ∈ l, Yields (g x) Q) :
    Yields (l.mapM g) fun bs => bs.length = l.length ∧ ∀ b ∈ bs, Q b := by
  refine (Yields.mapM h).imp fun bs hbs => ?_
  induction hbs with
  | nil => exact ⟨rfl, fun b hb => absurd hb List.not_mem_nil⟩
  | cons hb _ ih =>
    obtain ⟨hlength, hrest⟩ := ih fun y hy => h y (List.mem_cons_of_mem _ hy)
    exact ⟨congrArg (· + 1) hlength, List.forall_mem_cons.2 ⟨hb, hrest⟩⟩

theorem Yields.repeatUntil {accept : α → Prop} [DecidablePred accept] (hm : Yields m P) :
    Yields (repeatUntil m accept fuel) fun a => P a ∧ accept a := by
  induction fuel with
  | zero => exact yields_failure
  | succ fuel ih =>
    refine hm.bind fun a ha => ?_
    exact yields_ite (fun haccept => yields_pure ⟨ha, haccept⟩) fun _ => ih

theorem repeatUntil_of_single {sample : Draws δ α} {v : δ → α}
    (hsample : ∀ s, sample s = some (v (s 0), skip s 1))
    {accept : α → Prop} [DecidablePred accept]
    (h : repeatUntil sample accept fuel s = some (a, s')) :
    ∃ j, s' = skip s (j + 1) ∧ v (s j) = a ∧ accept a ∧ ∀ i < j, ¬ accept (v (s i)) := by
  induction fuel generalizing s with
  | zero => cases h
  | succ fuel ih =>
    obtain ⟨x, s₁, hx, hrest⟩ := run_bind_eq_some.1 h
    rw [hsample] at hx
    cases hx
    by_cases haccept : accept (v (s 0))
    · rw [if_pos haccept] at hrest
      obtain ⟨rfl, rfl⟩ := run_pure_eq_some.1 hrest
      exact ⟨0, rfl, rfl, haccept, fun i hi => absurd hi (Nat.not_lt_zero i)⟩
    · rw [if_neg haccept] at hrest
      obtain ⟨j, rfl, hj, hacc, hbefore⟩ := ih hrest
      refine ⟨1 + j, ?_, hj, hacc, ?_⟩
      · rw [skip_skip, Nat.add_assoc]
      · intro i hi
        cases i with
        | zero => exact haccept
        | succ i =>
          have := hbefore i (by omega)
          rwa [skip, Nat.add_comm] at this

/-! ## Programs that end -/

/-- The program ends on every stream. -/
def Returns (m : Draws δ α) : Prop := ∀ s, ∃ a s', m s = some (a, s')

theorem returns_pure (a : α) : Returns (pure a : Draws δ α) := fun s => ⟨a, s, rfl⟩

theorem Returns.bind (hm : Returns m) (hyields : Yields m P) (hf : ∀ a, P a → Returns (f a)) :
    Returns (m >>= f) := by
  intro s
  obtain ⟨a, s₁, ha⟩ := hm s
  obtain ⟨b, s', hb⟩ := hf a (hyields s a s₁ ha) s₁
  exact ⟨b, s', run_bind_eq_some.2 ⟨a, s₁, ha, hb⟩⟩

theorem Returns.bind' (hm : Returns m) (hf : ∀ a, Returns (f a)) : Returns (m >>= f) :=
  hm.bind (fun _ _ _ _ => trivial : Yields m fun _ => True) fun a _ => hf a

theorem Returns.mapM {g : α → Draws δ β} (h : ∀ x, Returns (g x)) (l : List α) :
    Returns (l.mapM g) := by
  induction l with
  | nil => exact returns_pure []
  | cons x l ih =>
    rw [List.mapM_cons]
    exact (h x).bind' fun b => ih.bind' fun bs => returns_pure (b :: bs)

/-! ## Selecting different values -/

section Select

variable {lt : α → α → Prop} [DecidableEq α] [DecidableRel lt] [IsTrans α lt]
  [Std.Trichotomous lt]

/-- Samples until there are `n` more values in the set. Each time, samples that are in the set
already are thrown away. -/
def selectDistinct (sample : Draws δ α) (fuel : ℕ) :
    ℕ → OrderedSet α lt → Draws δ (OrderedSet α lt)
  | 0, rows => pure rows
  | n + 1, rows => do
      let x ← repeatUntil sample (· ∉ rows.toList) fuel
      selectDistinct sample fuel n (rows.insert x)

theorem Yields.selectDistinct {sample : Draws δ α} (hsample : Yields sample P) (n : ℕ)
    {rows : OrderedSet α lt} (hrows : ∀ x ∈ rows.toList, P x) :
    Yields (selectDistinct sample fuel n rows) fun selected =>
      selected.toList.length = rows.toList.length + n ∧ ∀ x ∈ selected.toList, P x := by
  induction n generalizing rows with
  | zero => exact yields_pure ⟨rfl, hrows⟩
  | succ n ih =>
    refine hsample.repeatUntil.bind fun x hx => ?_
    have hinsert : ∀ y ∈ (rows.insert x).toList, P y := by
      intro y hy
      rcases OrderedSet.mem_insert.1 hy with rfl | hy
      · exact hx.1
      · exact hrows y hy
    refine (ih hinsert).imp fun selected hselected => ⟨?_, hselected.2⟩
    rw [hselected.1, OrderedSet.length_insert_of_notMem hx.2]
    omega

theorem Yields.selectDistinct_empty {sample : Draws δ α} (hsample : Yields sample P) (n : ℕ) :
    Yields (Draws.selectDistinct sample fuel n (.empty : OrderedSet α lt)) fun selected =>
      selected.toList.length = n ∧ ∀ x ∈ selected.toList, P x := by
  refine (hsample.selectDistinct n fun x hx => ?_).imp fun selected h => ⟨?_, h.2⟩
  · cases hx
  · rw [h.1]
    exact Nat.zero_add n

/-! ### Samples that take one value from the stream -/

variable {v : δ → α}

/-- The values among the first `k` ones of the stream. -/
def firstValues (v : δ → α) (s : ℕ → δ) (k : ℕ) : Finset α :=
  (Finset.range k).image fun i => v (s i)

omit [DecidableRel lt] [IsTrans α lt] [Std.Trichotomous lt] in
theorem mem_firstValues {x : α} {k : ℕ} : x ∈ firstValues v s k ↔ ∃ i < k, v (s i) = x := by
  simp [firstValues]

omit [DecidableRel lt] [IsTrans α lt] [Std.Trichotomous lt] in
theorem firstValues_add (v : δ → α) (s : ℕ → δ) (j k : ℕ) :
    firstValues v s (j + k) = firstValues v s j ∪ firstValues v (skip s j) k := by
  ext x
  simp only [Finset.mem_union, mem_firstValues]
  constructor
  · rintro ⟨i, hi, rfl⟩
    rcases Nat.lt_or_ge i j with hij | hij
    · exact .inl ⟨i, hij, rfl⟩
    · refine .inr ⟨i - j, by omega, ?_⟩
      rw [skip, Nat.add_sub_cancel' hij]
  · rintro (⟨i, hi, rfl⟩ | ⟨i, hi, rfl⟩)
    · exact ⟨i, by omega, rfl⟩
    · exact ⟨j + i, by omega, rfl⟩

/-- The selection takes values from the stream until enough of them are new; what is selected are
the values it took. -/
theorem selectDistinct_of_single {sample : Draws δ α}
    (hsample : ∀ s, sample s = some (v (s 0), skip s 1)) {rows selected : OrderedSet α lt}
    (h : selectDistinct sample fuel n rows s = some (selected, s')) :
    ∃ k, s' = skip s k ∧ selected.toList.length = rows.toList.length + n ∧
      selected.toList.toFinset = rows.toList.toFinset ∪ firstValues v s k ∧
      ∀ i < k, (rows.toList.toFinset ∪ firstValues v s i).card < rows.toList.length + n := by
  induction n generalizing rows s with
  | zero =>
    obtain ⟨rfl, rfl⟩ := run_pure_eq_some.1 h
    exact ⟨0, (skip_zero s).symm, rfl, by simp [firstValues],
      fun i hi => absurd hi (Nat.not_lt_zero i)⟩
  | succ n ih =>
    obtain ⟨x, s₁, hx, hrest⟩ := run_bind_eq_some.1 h
    obtain ⟨j, rfl, hj, hnew, hold⟩ := repeatUntil_of_single hsample hx
    obtain ⟨k, rfl, hlength, hselected, hbound⟩ := ih hrest
    rw [OrderedSet.length_insert_of_notMem hnew] at hlength hbound
    have hmem : ∀ i < j, v (s i) ∈ rows.toList := fun i hi => not_not.1 (hold i hi)
    have hinsert : (rows.insert x).toList.toFinset =
        rows.toList.toFinset ∪ firstValues v s (j + 1) := by
      ext y
      simp only [List.mem_toFinset, OrderedSet.mem_insert, Finset.mem_union, mem_firstValues]
      constructor
      · rintro (rfl | hy)
        · exact .inr ⟨j, by omega, hj⟩
        · exact .inl hy
      · rintro (hy | ⟨i, hi, rfl⟩)
        · exact .inr hy
        · rcases Nat.lt_succ_iff_lt_or_eq.1 hi with hij | rfl
          · exact .inr (hmem i hij)
          · exact .inl hj
    refine ⟨j + 1 + k, skip_skip s (j + 1) k, by omega, ?_, ?_⟩
    · rw [hselected, hinsert, firstValues_add v s (j + 1) k, Finset.union_assoc]
    · intro i hi
      rcases Nat.lt_or_ge i (j + 1) with hij | hij
      · -- Before the new value was drawn, all values were in the set.
        have hsub : rows.toList.toFinset ∪ firstValues v s i = rows.toList.toFinset := by
          rw [Finset.union_eq_left]
          intro y hy
          obtain ⟨i', hi', rfl⟩ := mem_firstValues.1 hy
          exact List.mem_toFinset.2 (hmem i' (by omega))
        have hcard := rows.toList.toFinset_card_le
        rw [hsub]
        omega
      · obtain ⟨i', rfl⟩ := Nat.exists_eq_add_of_le hij
        have hcard := hbound i' (by omega)
        rw [hinsert, Finset.union_assoc, ← firstValues_add] at hcard
        omega

/-- A value is selected exactly if it is drawn while fewer than `n` different values were drawn. -/
theorem mem_selected_iff [Std.Irrefl lt] {sample : Draws δ α}
    (hsample : ∀ s, sample s = some (v (s 0), skip s 1)) {selected : OrderedSet α lt}
    (h : selectDistinct sample fuel n .empty s = some (selected, s')) (x : α) :
    x ∈ selected.toList ↔ ∃ i, v (s i) = x ∧ (firstValues v s i).card < n := by
  obtain ⟨k, -, hlength, hselected, hbound⟩ := selectDistinct_of_single hsample h
  simp only [OrderedSet.empty, List.toFinset_nil, Finset.empty_union, List.length_nil,
    Nat.zero_add] at hlength hselected hbound
  rw [← List.mem_toFinset, hselected, mem_firstValues]
  constructor
  · rintro ⟨i, hi, hx⟩
    exact ⟨i, hx, hbound i hi⟩
  · rintro ⟨i, hx, hcard⟩
    refine ⟨i, ?_, hx⟩
    by_contra hge
    have hsub : firstValues v s k ⊆ firstValues v s i :=
      Finset.image_subset_image (Finset.range_subset_range.2 (by omega))
    have hle := Finset.card_le_card hsub
    rw [← hselected, List.toFinset_card_of_nodup selected.nodup] at hle
    omega

end Select

end Draws
