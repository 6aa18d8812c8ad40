import RdmaSnapshot.PaymentTransaction
import RdmaSnapshot.Lib.Region
import Mathlib.Data.List.TakeWhile

/-!
# The insertion into `C_DATA`

A Payment puts a text in front of the string in the array `C_DATA` of the customer it has read:
a `memmove` shifts what is kept of the old string, a `memcpy` stores the new text, and a last store
terminates the result. `C_DATA` has 500 bytes, and the code keeps 500 characters, so that the
terminator of a result that fills the array is stored behind it.
-/

namespace RdmaSnapshot.PaymentTransaction

open Region

variable {m : Region UInt8} {C_DATA : ℕ} {history s : List UInt8}

def dataSize : ℕ := 500

/-- The array at address `a` holds the string `s`, with its terminator. -/
structure HoldsString (m : Region UInt8) (a : ℕ) (s : List UInt8) : Prop where
  fits : s.length < dataSize
  ne_zero : ∀ b ∈ s, b ≠ 0
  contains : m.Contains a (s ++ [0])

def strlen (m : Region UInt8) (a : ℕ) : ℕ := ((m.read a dataSize).takeWhile (· ≠ 0)).length

/-- `current_keep`: the characters of the old string that are kept. -/
def currentKeep (characters strlen : ℕ) : ℕ :=
  if strlen + characters > dataSize then dataSize - characters else strlen

/-- The stores of the insertion: the `memmove`, the `memcpy` and the terminator. -/
def insertion (m : Region UInt8) (C_DATA : ℕ) (history : List UInt8) : List (Store UInt8) :=
  let characters := history.length
  let current_keep := currentKeep characters (strlen m C_DATA)
  [⟨C_DATA + characters, m.read C_DATA current_keep⟩, ⟨C_DATA, history⟩,
    ⟨C_DATA + (characters + current_keep), [0]⟩]

/-! ## What is stored -/

theorem takeWhile_append_zero (h : ∀ b ∈ s, b ≠ 0) (rest : List UInt8) :
    (s ++ 0 :: rest).takeWhile (· ≠ 0) = s := by
  rw [List.takeWhile_append_of_pos (by simpa using h)]
  simp

theorem HoldsString.read_array (h : HoldsString m C_DATA s) :
    m.read C_DATA dataSize = s ++ 0 :: (m.read C_DATA dataSize).drop (s.length + 1) := by
  have hlen : (s ++ [0]).length ≤ dataSize := by
    have := h.fits
    rw [List.length_append, List.length_singleton]
    omega
  have heq := h.contains.read_eq_append_drop hlen fun _ _ => rfl
  rwa [List.length_append, List.length_singleton, List.append_assoc, List.singleton_append] at heq

theorem HoldsString.strlen_eq (h : HoldsString m C_DATA s) : strlen m C_DATA = s.length := by
  have heq := h.read_array
  unfold strlen
  generalize m.read C_DATA dataSize = data at heq
  rw [heq, takeWhile_append_zero h.ne_zero]

theorem HoldsString.read_eq_take (h : HoldsString m C_DATA s) {n : ℕ} (hn : n ≤ s.length) :
    m.read C_DATA n = s.take n := by
  have hs := (contains_append.1 h.contains).1.take n
  have heq := hs.read_eq
  rwa [List.length_take, Nat.min_eq_left hn] at heq

/-- After the insertion the text, what is kept of the old string and the terminator are one behind
the other. -/
theorem contains_insertion (h : HoldsString m C_DATA s) {keep : ℕ}
    (hkeep : keep = currentKeep history.length s.length) (hle : keep ≤ s.length) :
    (m.stores (insertion m C_DATA history)).Contains C_DATA (history ++ s.take keep ++ [0]) := by
  have hstores : m.stores (insertion m C_DATA history) =
      ((m.write (C_DATA + history.length) (s.take keep)).write C_DATA history).write
        (C_DATA + (history.length + keep)) [0] := by
    simp only [insertion, stores, List.foldl_cons, List.foldl_nil, h.strlen_eq, ← hkeep,
      h.read_eq_take hle]
  have hlen : (s.take keep).length = keep := by rw [List.length_take, Nat.min_eq_left hle]
  rw [hstores, contains_append, contains_append, List.length_append, hlen]
  refine ⟨⟨?_, ?_⟩, contains_write _ _ _⟩
  · exact (contains_write_iff (.inl (by omega))).2 (contains_write _ _ _)
  · rw [contains_write_iff (.inl (by omega)), contains_write_iff (.inr (by omega))]
    exact contains_write _ _ _

/-! ## Which insertions are right -/

theorem currentKeep_of_le {n k : ℕ} (h : n + k ≤ dataSize) : currentKeep n k = k :=
  if_neg (by omega)

theorem insertion_of_lt (h : HoldsString m C_DATA s) (hhistory : ∀ b ∈ history, b ≠ 0)
    (hlt : history.length + s.length < dataSize) :
    HoldsString (m.stores (insertion m C_DATA history)) C_DATA (history ++ s) ∧
      ∀ st ∈ insertion m C_DATA history, st.Within C_DATA dataSize := by
  have hkeep := currentKeep_of_le (n := history.length) (k := s.length) (by omega)
  constructor
  · refine ⟨by rwa [List.length_append], ?_, ?_⟩
    · intro b hb
      rcases List.mem_append.1 hb with hb | hb
      · exact hhistory b hb
      · exact h.ne_zero b hb
    · have hcontains := contains_insertion h hkeep.symm (Nat.le_refl _)
      rwa [List.take_length] at hcontains
  · intro st hst
    simp only [insertion, h.strlen_eq, hkeep, List.mem_cons, List.not_mem_nil, or_false] at hst
    unfold Store.Within
    rcases hst with rfl | rfl | rfl
    · simp only [length_read]
      omega
    · simp only
      omega
    · simp only [List.length_singleton]
      omega

/-- An insertion whose result fills the array stores the terminator behind it. -/
theorem not_within_insertion (h : HoldsString m C_DATA s) (hle : history.length ≤ dataSize)
    (hge : dataSize ≤ history.length + s.length) :
    ¬ ∀ st ∈ insertion m C_DATA history, st.Within C_DATA dataSize := by
  intro hwithin
  have hkeep : history.length + currentKeep history.length s.length = dataSize := by
    unfold currentKeep
    split <;> omega
  have hlast := hwithin ⟨C_DATA + dataSize, [0]⟩ (by
    simp only [insertion, h.strlen_eq, hkeep]
    simp)
  have hend := hlast.2
  simp only [List.length_singleton] at hend
  omega

/-- **The insertion into `C_DATA`.** The update leaves in the array a terminated string, the longest
start of the new text and the old string that fits, and stores nothing outside the array, exactly
if text and string have at most 499 characters together. -/
theorem insertion_iff (m : Region UInt8) (C_DATA : ℕ) (history s : List UInt8)
    (hhistory : ∀ b ∈ history, b ≠ 0) (hlen : 1 ≤ history.length ∧ history.length ≤ 499)
    (h : HoldsString m C_DATA s) :
    (HoldsString (m.stores (insertion m C_DATA history)) C_DATA
        ((history ++ s).take (min (history.length + s.length) 499)) ∧
      ∀ st ∈ insertion m C_DATA history, st.Within C_DATA dataSize) ↔
      history.length + s.length ≤ 499 := by
  constructor
  · rintro ⟨-, hwithin⟩
    by_contra hgt
    exact not_within_insertion h (by unfold dataSize; omega) (by unfold dataSize; omega) hwithin
  · intro hle
    rw [Nat.min_eq_left hle, List.take_of_length_le (Nat.le_of_eq List.length_append)]
    exact insertion_of_lt h hhistory (by unfold dataSize; omega)

/-- A memory that holds a string of `n` characters `'d'` at address zero. -/
def filledData (n : ℕ) : Region UInt8 := fun i => if i < n then 100 else 0

theorem holdsString_filledData {n : ℕ} (hn : n < dataSize) :
    HoldsString (filledData n) 0 (List.replicate n 100) := by
  refine ⟨by rwa [List.length_replicate], ?_, ?_⟩
  · intro b hb
    rw [List.eq_of_mem_replicate hb]
    decide
  · rw [contains_append, contains_singleton, List.length_replicate]
    refine ⟨?_, by simp [filledData]⟩
    intro j x hx
    obtain ⟨hj, rfl⟩ := List.getElem?_eq_some_iff.1 hx
    rw [List.length_replicate] at hj
    simp [filledData, hj]

theorem insertion_iff_300 :
    (HoldsString ((filledData 300).stores (insertion (filledData 300) 0 [40, 41, 10])) 0
        ((([40, 41, 10] : List UInt8) ++ List.replicate 300 100).take (min (3 + 300) 499)) ∧
      ∀ st ∈ insertion (filledData 300) 0 [40, 41, 10], st.Within 0 dataSize) := by
  have h := insertion_iff (filledData 300) 0 [40, 41, 10] (List.replicate 300 100) (by simp)
    (by decide) (holdsString_filledData (by decide))
  rw [List.length_replicate] at h
  exact h.2 (by decide)

/-- **A store behind the array.** The old string has 497 characters and the text has three. -/
theorem insertion_fails_497 :
    HoldsString (filledData 497) 0 (List.replicate 497 100) ∧
      ¬ ∀ st ∈ insertion (filledData 497) 0 [40, 41, 10], st.Within 0 dataSize := by
  have h := holdsString_filledData (n := 497) (by decide)
  refine ⟨h, not_within_insertion h (by decide) ?_⟩
  rw [List.length_replicate]
  decide

/-! ## The row of the model -/

/-- An insertion that stays inside the array computes the `C_DATA` of `newCustomer`. -/
theorem read_insertion (h : HoldsString m C_DATA s)
    (hlt : history.length + s.length < dataSize) :
    (m.stores (insertion m C_DATA history)).read C_DATA dataSize =
      insertHistory history (m.read C_DATA dataSize) := by
  have hkeep := currentKeep_of_le (n := history.length) (k := s.length) (by omega)
  have hcontains := contains_insertion h hkeep.symm (Nat.le_refl _)
  rw [List.take_length] at hcontains
  have hlen : (history ++ s ++ [0]).length = history.length + s.length + 1 := by
    rw [List.length_append, List.length_append, List.length_singleton]
  -- nothing behind the terminator is stored
  have hframe : ∀ i, C_DATA + (history ++ s ++ [0]).length ≤ i →
      m.stores (insertion m C_DATA history) i = m i := by
    intro i hi
    rw [hlen] at hi
    refine stores_of_forall (a := C_DATA) (n := history.length + s.length + 1) ?_ (.inr hi)
    intro st hst
    simp only [insertion, h.strlen_eq, hkeep, List.mem_cons, List.not_mem_nil, or_false] at hst
    unfold Store.Within
    rcases hst with rfl | rfl | rfl
    · simp only [length_read]
      omega
    · simp only
      omega
    · simp only [List.length_singleton]
      omega
  rw [hcontains.read_eq_append_drop (by omega) hframe, hlen]
  have harray := h.read_array
  generalize m.read C_DATA dataSize = data at harray
  have hstrlen : (data.takeWhile (· ≠ 0)).length = s.length := by
    rw [harray, takeWhile_append_zero h.ne_zero]
  have htake : data.take s.length = s := by
    rw [harray, List.take_left]
  have hle : ¬ s.length + history.length > 500 := by
    unfold dataSize at hlt
    omega
  simp only [insertHistory, hstrlen, if_neg hle, htake]
  simp

theorem read_insertion_four : ((filledData 4).stores (insertion (filledData 4) 0 [40, 41, 10])).read
      0 dataSize = insertHistory [40, 41, 10] ((filledData 4).read 0 dataSize) :=
  read_insertion (holdsString_filledData (by decide)) (by decide)

/-! ## Insertions that change nothing -/

variable {data : List UInt8}

/-- A text in front of a string that does not fill the array makes the string longer. -/
theorem take_ne_of_strlen {rest : List UInt8} (hhistory : ∀ b ∈ history, b ≠ 0)
    (hne : history ≠ []) (hlt : (data.takeWhile (· ≠ 0)).length < dataSize)
    (hrest : rest.takeWhile (· ≠ 0) = data.takeWhile (· ≠ 0)) :
    (history ++ rest).take dataSize ≠ data.take dataSize := by
  intro heq
  have hlen := congrArg (fun l => (l.takeWhile (· ≠ 0)).length) heq
  simp only [← List.take_takeWhile] at hlen
  rw [List.takeWhile_append_of_pos (by simpa using hhistory), hrest, List.length_take,
    List.length_take, List.length_append] at hlen
  have hpos := List.length_pos_iff.2 hne
  omega

/-- **No change.** The insertion leaves the array as it was iff the array holds the text over and
over, from one end to the other. -/
theorem take_insertHistory_iff (hhistory : ∀ b ∈ history, b ≠ 0) (hne : history ≠ [])
    (data : List UInt8) :
    (insertHistory history data).take dataSize = data.take dataSize ↔
      (history ++ data).take dataSize = data.take dataSize := by
  have hstart : data.takeWhile (· ≠ 0) <+: data := List.takeWhile_prefix _
  have hle := hstart.length_le
  by_cases hfull : (data.takeWhile (· ≠ 0)).length + history.length > 500
  · -- the kept part of the old string fills the array
    have hsame : (insertHistory history data).take dataSize = (history ++ data).take dataSize := by
      simp only [insertHistory, if_pos hfull, dataSize]
      rw [List.take_append_of_le_length
        (by simp only [List.length_append, List.length_take]; omega),
        List.take_append, List.take_append, List.take_take, Nat.min_self]
    rw [hsame]
  · have hpos := List.length_pos_iff.2 hne
    have hlt : (data.takeWhile (· ≠ 0)).length < dataSize := by
      unfold dataSize
      omega
    have hprefix := (List.prefix_iff_eq_take.1 hstart).symm
    refine iff_of_false ?_ (take_ne_of_strlen hhistory hne hlt rfl)
    simp only [insertHistory, if_neg hfull, hprefix, List.append_assoc]
    refine take_ne_of_strlen hhistory hne hlt ?_
    exact takeWhile_append_zero (fun b hb => by simpa using List.mem_takeWhile_imp hb) _

/-! ## The text -/

theorem toList_loop_eq (bytes : ByteArray) (i : ℕ) (r : List UInt8) :
    ByteArray.toList.loop bytes i r = r.reverse ++ bytes.data.toList.drop i := by
  fun_induction ByteArray.toList.loop bytes i r with
  | case1 i r h ih =>
    have hi : i < bytes.data.toList.length := by simpa using h
    rw [ih, List.reverse_cons, List.append_assoc, List.singleton_append,
      List.drop_eq_getElem_cons hi]
    congr 2
    simp [ByteArray.get!, h]
  | case2 i r h => rw [List.drop_eq_nil_of_le (by simpa using h), List.append_nil]

theorem toList_eq_data (bytes : ByteArray) : bytes.toList = bytes.data.toList := by
  rw [ByteArray.toList, toList_loop_eq]
  rfl

theorem historyText_ne_nil (cfg : Config) (cart : PaymentCart) (cID : UInt32) :
    historyText cfg cart cID ≠ [] := by
  -- the text ends with a parenthesis and a line feed
  rw [historyText, toList_eq_data, String.toUTF8, String.toByteArray_append,
    ByteArray.data_append, Array.toList_append]
  exact List.append_ne_nil_of_right_ne_nil _ (by decide)

end RdmaSnapshot.PaymentTransaction
