import Mathlib.Data.List.Basic
import Mathlib.Order.Defs.Unbundled

/-!
# Ordered sets

A set kept as a strictly increasing list, as an ordered container keeps it: an insertion goes to
its place, and inserting an element that is there changes nothing.
-/

variable {α β : Type*} {lt : α → α → Prop}

/-- A strictly increasing list. -/
@[ext] structure OrderedSet (α : Type*) (lt : α → α → Prop) where
  toList : List α
  sorted : toList.Pairwise lt

namespace OrderedSet

def empty : OrderedSet α lt := ⟨[], .nil⟩

theorem nodup [Std.Irrefl lt] (s : OrderedSet α lt) : s.toList.Nodup :=
  s.sorted.imp fun {a b} h heq => by
    subst heq
    exact Std.Irrefl.irrefl a h

section Insert

variable [DecidableEq α] [DecidableRel lt]

/-- Puts `x` in front of the first element that is greater. -/
def insertList (lt : α → α → Prop) [DecidableRel lt] (x : α) : List α → List α
  | [] => [x]
  | y :: l => if lt x y then x :: y :: l else if x = y then y :: l else y :: insertList lt x l

theorem mem_insertList {x y : α} {l : List α} : y ∈ insertList lt x l ↔ y = x ∨ y ∈ l := by
  induction l with
  | nil => simp [insertList]
  | cons z l ih =>
    rw [insertList]
    split
    · simp
    · split
      · rename_i _ heq
        simp [heq]
      · rw [List.mem_cons, ih, List.mem_cons]
        tauto

theorem length_insertList_le (x : α) (l : List α) :
    (insertList lt x l).length ≤ l.length + 1 := by
  induction l with
  | nil => simp [insertList]
  | cons z l ih =>
    rw [insertList]
    split
    · simp
    · split
      · simp
      · simpa using ih

theorem length_insertList_of_notMem {x : α} {l : List α} (h : x ∉ l) :
    (insertList lt x l).length = l.length + 1 := by
  induction l with
  | nil => rfl
  | cons z l ih =>
    obtain ⟨hz, hl⟩ := not_or.1 (mt List.mem_cons.2 h)
    rw [insertList, if_neg hz]
    split
    · rfl
    · rw [List.length_cons, ih hl, List.length_cons]

theorem pairwise_insertList [IsTrans α lt] [Std.Trichotomous lt] (x : α) {l : List α}
    (h : l.Pairwise lt) : (insertList lt x l).Pairwise lt := by
  induction l with
  | nil => simp [insertList]
  | cons z l ih =>
    obtain ⟨hz, hl⟩ := List.pairwise_cons.1 h
    rw [insertList]
    split
    · rename_i hxz
      refine List.pairwise_cons.2 ⟨?_, h⟩
      intro y hy
      rcases List.mem_cons.1 hy with rfl | hy
      · exact hxz
      · exact IsTrans.trans _ _ _ hxz (hz y hy)
    · split
      · exact h
      · rename_i hxz hne
        refine List.pairwise_cons.2 ⟨?_, ih hl⟩
        intro y hy
        rcases mem_insertList.1 hy with rfl | hy
        · by_contra hzy
          exact hne (Std.Trichotomous.trichotomous _ _ hxz hzy)
        · exact hz y hy

variable [IsTrans α lt] [Std.Trichotomous lt]

def insert (s : OrderedSet α lt) (x : α) : OrderedSet α lt :=
  ⟨insertList lt x s.toList, pairwise_insertList x s.sorted⟩

theorem mem_insert {s : OrderedSet α lt} {x y : α} :
    y ∈ (s.insert x).toList ↔ y = x ∨ y ∈ s.toList :=
  mem_insertList

theorem length_insert_le (s : OrderedSet α lt) (x : α) :
    (s.insert x).toList.length ≤ s.toList.length + 1 :=
  length_insertList_le x s.toList

theorem length_insert_of_notMem {s : OrderedSet α lt} {x : α} (h : x ∉ s.toList) :
    (s.insert x).toList.length = s.toList.length + 1 :=
  length_insertList_of_notMem h

theorem mem_foldl_insert (f : β → α) (l : List β) (s : OrderedSet α lt) {y : α} :
    y ∈ (l.foldl (fun s b => s.insert (f b)) s).toList ↔
      y ∈ s.toList ∨ ∃ b ∈ l, f b = y := by
  induction l generalizing s with
  | nil => simp
  | cons b l ih =>
    rw [List.foldl_cons, ih, mem_insert]
    simp only [List.mem_cons, exists_eq_or_imp, eq_comm (a := y)]
    tauto

theorem length_foldl_insert_le (f : β → α) (l : List β) (s : OrderedSet α lt) :
    (l.foldl (fun s b => s.insert (f b)) s).toList.length ≤ s.toList.length + l.length := by
  induction l generalizing s with
  | nil => simp
  | cons b l ih =>
    have hinsert := s.length_insert_le (f b)
    have hrest := ih (s.insert (f b))
    rw [List.foldl_cons, List.length_cons]
    omega

end Insert

end OrderedSet
