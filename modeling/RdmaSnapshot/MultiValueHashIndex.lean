import Mathlib.Data.List.AList

/-!
# The multi-value hash index

`MultiValueHashIndex` keeps a vector of values for every key in a hash map. Its base class
`HashIndex` has `put`, `get`, `hasKey`, `erase`, `clear` and `size`; the class itself adds `append`
and `getMiddle`. Every method holds the mutex of the index for the whole call, so the calls take
effect one after another.

The hash map is a finite list of entries without repeated keys. Two of the methods reach the map
with `operator[]`, which inserts an empty vector for a key that is not there: `append`, which then
fills it, and `getMiddle`, which leaves it behind and throws.
-/

namespace RdmaSnapshot

abbrev MultiValueHashIndex (K V : Type) := AList fun _ : K => List V

namespace MultiValueHashIndex

variable {K V : Type} [DecidableEq K]

/-! ## The methods -/

def put (index : MultiValueHashIndex K V) (k : K) (v : List V) : MultiValueHashIndex K V :=
  index.insert k v

/-- `hashMap_.at(k)`; `none` is the exception `std::out_of_range`. -/
def get (index : MultiValueHashIndex K V) (k : K) : Option (List V) := index.lookup k

def hasKey (index : MultiValueHashIndex K V) (k : K) : Bool := decide (k ∈ index)

def erase (index : MultiValueHashIndex K V) (k : K) : MultiValueHashIndex K V := AList.erase k index

def clear (_ : MultiValueHashIndex K V) : MultiValueHashIndex K V := ∅

def size (index : MultiValueHashIndex K V) : ℕ := index.entries.length

/-- What `hashMap_[k]` does to the map: an absent key gets an empty vector. -/
def access (index : MultiValueHashIndex K V) (k : K) : MultiValueHashIndex K V :=
  if k ∈ index then index else index.insert k []

/-- The vector filed under `k`, empty if there is none. -/
def values (index : MultiValueHashIndex K V) (k : K) : List V := (index.lookup k).getD []

def append (index : MultiValueHashIndex K V) (k : K) (v : V) : MultiValueHashIndex K V :=
  (index.access k).insert k ((index.access k).values k ++ [v])

/-- A copy `valVector` of `hashMap_[k]` is made, then `valVector.at(valVector.size() / 2)` is
returned; `none` is the exception of `at`. -/
def getMiddle (index : MultiValueHashIndex K V) (k : K) : Option V × MultiValueHashIndex K V :=
  let index := index.access k
  let valVector := index.values k
  (valVector[valVector.length / 2]?, index)

/-! ## What the methods do to the values of a key -/

section

variable (index : MultiValueHashIndex K V) (k : K)

@[simp] theorem values_access (k' : K) : (index.access k).values k' = index.values k' := by
  rw [access]
  split
  · rfl
  · next habsent =>
      by_cases hk : k' = k
      · subst hk
        simp [values, AList.lookup_eq_none.2 habsent]
      · simp [values, AList.lookup_insert_ne hk]

theorem values_append (v : V) (k' : K) :
    (index.append k v).values k' = if k' = k then index.values k ++ [v] else index.values k' := by
  rw [append, values_access]
  split
  · next hk =>
      subst hk
      simp [values]
  · next hk =>
      have haccess := values_access index k k'
      simp only [values] at haccess ⊢
      rw [AList.lookup_insert_ne hk, haccess]

@[simp] theorem values_getMiddle (k' : K) :
    (index.getMiddle k).2.values k' = index.values k' :=
  values_access index k k'

theorem getMiddle_fst :
    (index.getMiddle k).1 = (index.values k)[(index.values k).length / 2]? := by
  simp [getMiddle]

/-! ## Lookups -/

/-- What a user of the index sees of it. -/
def Unchanged (before after : MultiValueHashIndex K V) : Prop :=
  after.size = before.size ∧ ∀ k, after.hasKey k = before.hasKey k ∧ after.get k = before.get k

theorem size_access_of_notMem (h : k ∉ index) : (index.access k).size = index.size + 1 := by
  rw [access, if_neg h, size, AList.entries_insert_of_notMem h, List.length_cons, size]

theorem unchanged_access_iff : Unchanged index (index.access k) ↔ index.hasKey k = true := by
  rw [hasKey, decide_eq_true_eq]
  constructor
  · intro h
    by_contra habsent
    have hsize := h.1
    rw [size_access_of_notMem index k habsent] at hsize
    omega
  · intro hmem
    rw [access, if_pos hmem]
    exact ⟨rfl, fun _ => ⟨rfl, rfl⟩⟩

end

/-- The calls that change the index on purpose. -/
inductive Update (K V : Type)
  | append (k : K) (v : V)
  | put (k : K) (v : List V)
  | erase (k : K)
  | clear

inductive Lookup (K : Type)
  | get (k : K)
  | hasKey (k : K)
  | getMiddle (k : K)

def Update.exec (index : MultiValueHashIndex K V) : Update K V → MultiValueHashIndex K V
  | .append k v => index.append k v
  | .put k v => index.put k v
  | .erase k => index.erase k
  | .clear => index.clear

/-- The index after a lookup, whether it returned or threw. `get` and `hasKey` do not touch the
map. -/
def Lookup.exec (index : MultiValueHashIndex K V) : Lookup K → MultiValueHashIndex K V
  | .get _ => index
  | .hasKey _ => index
  | .getMiddle k => (index.getMiddle k).2

def history : List (Update K V ⊕ Lookup K) → MultiValueHashIndex K V :=
  List.foldl (fun index => Sum.elim (Update.exec index) (Lookup.exec index)) ∅

/-- A lookup that inserts nothing. -/
def Lookup.Harmless (index : MultiValueHashIndex K V) : Lookup K → Prop
  | .get _ => True
  | .hasKey _ => True
  | .getMiddle k => index.hasKey k = true

/-- After any calls, a lookup leaves what the users of the index see unchanged if and only if it is
not a `getMiddle` of a key that is not there. -/
theorem lookup_unchanged_iff (calls : List (Update K V ⊕ Lookup K)) (lookup : Lookup K) :
    Unchanged (history calls) (lookup.exec (history calls)) ↔ lookup.Harmless (history calls) := by
  cases lookup with
  | get k => exact iff_of_true ⟨rfl, fun _ => ⟨rfl, rfl⟩⟩ trivial
  | hasKey k => exact iff_of_true ⟨rfl, fun _ => ⟨rfl, rfl⟩⟩ trivial
  | getMiddle k => exact unchanged_access_iff (history calls) k

theorem not_unchanged_getMiddle_absent :
    let index : MultiValueHashIndex String UInt32 := history [.inl (.append "BARBARBAR" 0)]
    (index.getMiddle "BARBAROUGHT").1 = none ∧
      ¬ Unchanged index ((Lookup.getMiddle "BARBAROUGHT").exec index) ∧
      index.hasKey "BARBAROUGHT" = false ∧ (index.getMiddle "BARBAROUGHT").2.size = 2 ∧
      (index.getMiddle "BARBAROUGHT").2.hasKey "BARBAROUGHT" = true := by
  intro index
  have habsent : index.hasKey "BARBAROUGHT" = false := by decide +kernel
  refine ⟨by decide +kernel, ?_, habsent, by decide +kernel, by decide +kernel⟩
  intro h
  rw [Lookup.exec, getMiddle, unchanged_access_iff, habsent] at h
  contradiction

end MultiValueHashIndex

end RdmaSnapshot
