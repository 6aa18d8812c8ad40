import Mathlib.Data.List.Basic
import Mathlib.Logic.Function.Basic

/-!
# Self-delimiting encodings

An encoding of values by lists is self-delimiting if the end of a code word can be told from the
word: of two texts that start with code words and are equal, the words and the rests are equal.
Texts that are put together from such encodings can be read back.
-/

variable {α β σ : Type*} {f : α → List σ} {g : β → List σ}

/-- Equal texts that start with code words start with the same word. -/
def SelfDelimiting (f : α → List σ) : Prop :=
  ∀ a b rest rest', f a ++ rest = f b ++ rest' → a = b ∧ rest = rest'

namespace SelfDelimiting

/-- A list without the separator `x` is determined by what precedes the first separator. -/
theorem append_cons_inj {x : σ} {l l' rest rest' : List σ} (hl : x ∉ l) (hl' : x ∉ l')
    (h : l ++ x :: rest = l' ++ x :: rest') : l = l' ∧ rest = rest' := by
  induction l generalizing l' with
  | nil =>
    cases l' with
    | nil => exact ⟨rfl, (List.cons.inj h).2⟩
    | cons y l' => exact absurd (List.cons.inj h).1 (List.ne_of_not_mem_cons hl')
  | cons y l ih =>
    cases l' with
    | nil => exact absurd (List.cons.inj h).1.symm (List.ne_of_not_mem_cons hl)
    | cons y' l' =>
      obtain ⟨rfl, htail⟩ := List.cons.inj h
      obtain ⟨rfl, hrest⟩ :=
        ih (List.not_mem_of_not_mem_cons hl) (List.not_mem_of_not_mem_cons hl') htail
      exact ⟨rfl, hrest⟩

theorem separator {x : σ} (hf : Function.Injective f) (hx : ∀ a, x ∉ f a) :
    SelfDelimiting fun a => f a ++ [x] := by
  intro a b rest rest' h
  rw [List.append_assoc, List.append_assoc] at h
  obtain ⟨hword, hrest⟩ := append_cons_inj (hx a) (hx b) h
  exact ⟨hf hword, hrest⟩

theorem prod (hf : SelfDelimiting f) (hg : SelfDelimiting g) :
    SelfDelimiting fun p : α × β => f p.1 ++ g p.2 := by
  rintro ⟨a, b⟩ ⟨a', b'⟩ rest rest' h
  rw [List.append_assoc, List.append_assoc] at h
  obtain ⟨ha, hrest⟩ := hf a a' _ _ h
  obtain ⟨hb, hrest⟩ := hg b b' _ _ hrest
  exact ⟨Prod.ext ha hb, hrest⟩

theorem append_left (l : List σ) (hf : SelfDelimiting f) : SelfDelimiting fun a => l ++ f a := by
  intro a b rest rest' h
  rw [List.append_assoc, List.append_assoc] at h
  exact hf a b rest rest' (List.append_cancel_left h)

/-- A list is determined by the text of its code words, if no code word is empty. -/
theorem flatMap_injective (hf : SelfDelimiting f) (hne : ∀ a, f a ≠ []) :
    Function.Injective fun l : List α => l.flatMap f := by
  intro l l' h
  change l.flatMap f = l'.flatMap f at h
  induction l generalizing l' with
  | nil =>
    cases l' with
    | nil => rfl
    | cons b l' => exact absurd (List.append_eq_nil_iff.1 h.symm).1 (hne b)
  | cons a l ih =>
    cases l' with
    | nil => exact absurd (List.append_eq_nil_iff.1 h).1 (hne a)
    | cons b l' =>
      obtain ⟨rfl, hrest⟩ := hf _ _ _ _ h
      rw [ih hrest]

end SelfDelimiting
