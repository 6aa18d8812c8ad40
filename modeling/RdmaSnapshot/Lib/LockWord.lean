import Mathlib.Data.List.Nodup

/-!
# A lock word over a version history

A record has a history of versions, newest first, and one word. Every version has its own word,
which is not locked and names the writer of the version; no two versions have the same writer.
While nobody holds the record, its word is that of the newest version. A client that read a
version acquires the record by comparing the word with that of the version and swapping in the
word of a ticket, which is locked and names a writer that has no version yet. The holder releases
the record by putting the old word back, or by installing a version under the writer of its
ticket.

The comparison is on words only. `Inv.acquire` says that it nevertheless succeeds only on the very
version that was read: a word that was replaced by an installed version never comes back.
-/

namespace LockWord

/-- How words, versions, writers and tickets are related. -/
structure Scheme (V W D T : Type*) where
  /-- The word in front of a version. -/
  word : V → W
  /-- The writer a word names. -/
  writer : W → D
  /-- Locked words are told apart from those of versions. -/
  locked : W → Prop
  /-- The word a ticket puts in front of the record. -/
  ticketWord : T → W

variable {V W D T : Type*} (S : Scheme V W D T)

/-- The writers of the versions of a history. -/
def Scheme.writers (past : List V) : List D := past.map fun v => S.writer (S.word v)

/-- The invariant of a record with history `past`, holder `holder` and word `w`. -/
structure Inv (past : List V) (holder : Option T) (w : W) : Prop where
  nodup : (S.writers past).Nodup
  unlocked : ∀ v ∈ past, ¬ S.locked (S.word v)
  free : holder = none → ∀ v ∈ past.head?, w = S.word v
  held : ∀ t ∈ holder, w = S.ticketWord t ∧ S.locked w ∧ S.writer w ∉ S.writers past

variable {S} {past : List V} {holder : Option T} {w : W} {v : V} {t : T}

/-- The history of one version, held by nobody. -/
theorem Inv.init (hv : ¬ S.locked (S.word v)) : Inv S [v] (none : Option T) (S.word v) where
  nodup := List.nodup_singleton _
  unlocked := by simpa using hv
  free := by simp
  held := by simp

/-- The word is locked exactly while somebody holds the record. -/
theorem Inv.locked_iff (h : Inv S past holder w) (hne : past ≠ []) :
    S.locked w ↔ holder.isSome = true := by
  cases holder with
  | none =>
    obtain ⟨v, past, rfl⟩ := List.exists_cons_of_ne_nil hne
    have hw : w = S.word v := h.free rfl v rfl
    simp only [hw, Option.isSome_none, Bool.false_eq_true, iff_false]
    exact h.unlocked v List.mem_cons_self
  | some t =>
    simp only [Option.isSome_some, iff_true]
    exact (h.held t rfl).2.1

/-- Versions of one history with the same word are the same. -/
theorem Inv.eq_of_word_eq (h : Inv S past holder w) {u : V} (hu : u ∈ past) (hv : v ∈ past)
    (huv : S.word u = S.word v) : u = v :=
  List.inj_on_of_nodup_map h.nodup hu hv (by rw [huv])

/-- **Acquisition.** If the word is that of a version `v` of the history, then nobody holds the
record and `v` is its newest version; swapping in the word of a ticket with a new writer makes the
ticket the holder. -/
theorem Inv.acquire (h : Inv S past holder w) (hv : v ∈ past) (hw : w = S.word v)
    (hlock : S.locked (S.ticketWord t)) (hfresh : S.writer (S.ticketWord t) ∉ S.writers past) :
    holder = none ∧ past.head? = some v ∧ Inv S past (some t) (S.ticketWord t) := by
  have hfree : holder = none := by
    cases holder with
    | none => rfl
    | some t' =>
      exfalso
      have hlocked := (h.held t' rfl).2.1
      rw [hw] at hlocked
      exact h.unlocked v hv hlocked
  refine ⟨hfree, ?_, h.nodup, h.unlocked, ?_, ?_⟩
  · obtain ⟨u, past, rfl⟩ := List.exists_cons_of_ne_nil (List.ne_nil_of_mem hv)
    have hu : S.word u = S.word v := (h.free hfree u rfl).symm.trans hw
    rw [h.eq_of_word_eq List.mem_cons_self hv hu]
    rfl
  · intro hnone
    cases hnone
  · intro t' ht'
    cases ht'
    exact ⟨rfl, hlock, hfresh⟩

/-- **Release.** Putting the word of the newest version back frees the record. -/
theorem Inv.release (h : Inv S past (some t) w) (hv : past.head? = some v) :
    Inv S past (none : Option T) (S.word v) where
  nodup := h.nodup
  unlocked := h.unlocked
  free := by
    intro _ u hu
    rw [hv] at hu
    cases hu
    rfl
  held := by simp

/-- **Installation.** A version under the writer of the holder's ticket becomes the newest one. -/
theorem Inv.install (h : Inv S past (some t) w) (hv : S.writer (S.word v) = S.writer w)
    (hunlocked : ¬ S.locked (S.word v)) : Inv S (v :: past) (none : Option T) (S.word v) where
  nodup := by
    rw [Scheme.writers, List.map_cons, List.nodup_cons]
    refine ⟨?_, h.nodup⟩
    rw [hv]
    exact (h.held t rfl).2.2
  unlocked := by
    intro u hu
    rcases List.mem_cons.1 hu with rfl | hu
    · exact hunlocked
    · exact h.unlocked u hu
  free := by
    intro _ u hu
    cases hu
    rfl
  held := by simp

end LockWord
