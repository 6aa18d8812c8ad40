import RdmaSnapshot.Step

/-!
# What the trace says

Notions that no client can read but that the trace of events determines: who holds the lock of a
record and how far its commit has come, the current version of a record, and the commit timestamps
a client has acquired.
-/

namespace RdmaSnapshot

variable {cfg : Config} {s : State} {c c' : ClientID} {k : Key} {i g : ℕ} {wr : WorkRequest}
  {answer : IndexAnswer} {cl : Client} {o : Owner} {l : CpuLabel}

/-- How far the holder of a record has come: its lock word was swapped in, the pointer list was
written, the replaced version was written to the ring. -/
inductive Stage
  | locked | pushed | saved
  deriving DecidableEq

/-- A transaction that locked a record, and the word it swapped in. -/
structure Ticket where
  client : ClientID
  owner : Owner
  word : Timestamp

def Event.hold (k : Key) : Event → Option (Ticket × Stage) → Option (Ticket × Stage)
  | .effect c ⟨o, .compareAndSwap k' oldTS newTS _, _⟩ (.word existing), h =>
    if k' = k ∧ existing = oldTS then some (⟨c, o, newTS⟩, .locked) else h
  | .effect _ ⟨_, .writeTimestamp k' _, _⟩ _, h => if k' = k then none else h
  | .effect _ ⟨_, .writePointerList k' _, _⟩ _, h =>
    if k' = k then h.map fun p => (p.1, .pushed) else h
  | .effect _ ⟨_, .writeOlderVersion k' _ _, _⟩ _, h =>
    if k' = k then h.map fun p => (p.1, .saved) else h
  | .effect _ ⟨_, .writeHead k' _, _⟩ _, h => if k' = k then none else h
  | _, h => h

/-- The event is the acquisition of a commit timestamp by client `c`. -/
def Event.acquires (c : ClientID) : Event → Bool
  | .cpu c' _ (.acquire _) => c' = c
  | _ => false

namespace State

/-- The transaction whose lock word is in front of record `k`. -/
def holder (s : State) (k : Key) : Option (Ticket × Stage) := s.trace.foldr (Event.hold k) none

def mine (s : State) (c : ClientID) (k : Key) : Option (Ticket × Stage) :=
  (s.holder k).filter fun p => p.1.client = c

def current (s : State) (k : Key) : Version (Row k.table) :=
  (s.versions k).headD (s.populated k).head

/-- The number of commit timestamps client `c` has acquired. -/
def acquired (s : State) (c : ClientID) : ℕ := s.trace.countP (Event.acquires c)

/-- The commit timestamp client `c` acquires next, if it does not wrap. -/
def nextCts (cfg : Config) (s : State) (c : ClientID) : ℕ :=
  (s.acquired c + 1) * cfg.clientCnt + c.toNat

end State

/-- The commit timestamps acquired so far fit in 32 bits: the last one of client `c` is that of
epoch `acquired c`. -/
def NoWrap (cfg : Config) (s : State) : Prop :=
  ∀ c, c.toNat < cfg.clientCnt → s.acquired c * cfg.clientCnt + c.toNat < 2 ^ 32

/-! ## Versions -/

namespace State

theorem versions_ne_nil (s : State) (k : Key) : s.versions k ≠ [] := by
  simp [versions]

theorem head?_versions (s : State) (k : Key) : (s.versions k).head? = some (s.current k) := by
  obtain ⟨v, past, h⟩ := List.exists_cons_of_ne_nil (s.versions_ne_nil k)
  simp [current, h]

theorem current_mem (s : State) (k : Key) : s.current k ∈ s.versions k :=
  List.mem_of_mem_head? (s.head?_versions k)

@[simp] theorem versions_setClient : (s.setClient c cl o l).versions k = s.versions k := rfl

@[simp] theorem versions_readOracle : (s.readOracle g).versions k = s.versions k := rfl

theorem versions_effect_writeHead {v : Version (Row k.table)} (hv : wr.verb = .writeHead k v) :
    (s.effect c i wr answer).versions k = v :: s.versions k := by
  obtain ⟨o, verb, sig⟩ := wr
  cases hv
  simp [versions, Event.installs]

theorem versions_effect_of_ne (hv : ∀ v, wr.verb ≠ .writeHead k v) :
    (s.effect c i wr answer).versions k = s.versions k := by
  obtain ⟨o, verb, sig⟩ := wr
  cases verb with
  | writeHead k' v =>
    have hk : k' ≠ k := by
      rintro rfl
      exact hv v rfl
    simp [versions, Event.installs, hk]
  | _ => rfl

/-- The versions a record has had are never forgotten. -/
theorem mem_versions_effect {u : Version (Row k.table)} (hu : u ∈ s.versions k) :
    u ∈ (s.effect c i wr answer).versions k := by
  by_cases hv : ∃ v, wr.verb = .writeHead k v
  · obtain ⟨v, hv⟩ := hv
    rw [versions_effect_writeHead hv]
    exact List.mem_cons_of_mem _ hu
  · rw [versions_effect_of_ne fun v h => hv ⟨v, h⟩]
    exact hu

@[simp] theorem current_setClient : (s.setClient c cl o l).current k = s.current k := by
  simp [current]

@[simp] theorem current_readOracle : (s.readOracle g).current k = s.current k := by
  simp [current]

theorem current_effect_writeHead {v : Version (Row k.table)} (hv : wr.verb = .writeHead k v) :
    (s.effect c i wr answer).current k = v := by
  simp [current, versions_effect_writeHead hv]

theorem current_effect_of_ne (hv : ∀ v, wr.verb ≠ .writeHead k v) :
    (s.effect c i wr answer).current k = s.current k := by
  simp [current, versions_effect_of_ne hv]

/-! ## The holder of a record -/

@[simp] theorem holder_setClient : (s.setClient c cl o l).holder k = s.holder k := rfl

@[simp] theorem holder_readOracle : (s.readOracle g).holder k = s.holder k := rfl

@[simp] theorem mine_setClient : (s.setClient c cl o l).mine c' k = s.mine c' k := rfl

@[simp] theorem mine_readOracle : (s.readOracle g).mine c' k = s.mine c' k := rfl

theorem holder_effect : (s.effect c i wr answer).holder k =
    Event.hold k (.effect c wr (wr.verb.reply s.mem)) (s.holder k) := rfl

theorem holder_effect_of_not_mutates (h : wr.verb.mutates k = false) :
    (s.effect c i wr answer).holder k = s.holder k := by
  obtain ⟨o, verb, sig⟩ := wr
  cases verb with
  | compareAndSwap k' | writeTimestamp k' | writePointerList k' | writeOlderVersion k'
  | writeHead k' =>
    have hk : k' ≠ k := by simpa [Verb.mutates] using h
    simp [holder_effect, Event.hold, Verb.reply, hk]
  | _ => rfl

theorem holder_effect_swap {oldTS newTS : Timestamp} {b : ℕ}
    (hv : wr.verb = .compareAndSwap k oldTS newTS b)
    (hw : (s.mem k).head.writeTimestamp = oldTS) :
    (s.effect c i wr answer).holder k = some (⟨c, wr.owner, newTS⟩, .locked) := by
  obtain ⟨o, verb, sig⟩ := wr
  cases hv
  simp [holder_effect, Event.hold, Verb.reply, hw]

theorem holder_effect_noSwap {oldTS newTS : Timestamp} {b : ℕ}
    (hv : wr.verb = .compareAndSwap k oldTS newTS b)
    (hw : (s.mem k).head.writeTimestamp ≠ oldTS) :
    (s.effect c i wr answer).holder k = s.holder k := by
  obtain ⟨o, verb, sig⟩ := wr
  cases hv
  simp [holder_effect, Event.hold, Verb.reply, hw]

theorem holder_effect_writeTimestamp {ts : Timestamp} (hv : wr.verb = .writeTimestamp k ts) :
    (s.effect c i wr answer).holder k = none := by
  obtain ⟨o, verb, sig⟩ := wr
  cases hv
  simp [holder_effect, Event.hold]

theorem holder_effect_writeHead {v : Version (Row k.table)} (hv : wr.verb = .writeHead k v) :
    (s.effect c i wr answer).holder k = none := by
  obtain ⟨o, verb, sig⟩ := wr
  cases hv
  simp [holder_effect, Event.hold]

theorem holder_effect_writePointerList {list : List Timestamp}
    (hv : wr.verb = .writePointerList k list) :
    (s.effect c i wr answer).holder k = (s.holder k).map fun p => (p.1, .pushed) := by
  obtain ⟨o, verb, sig⟩ := wr
  cases hv
  simp [holder_effect, Event.hold]

theorem holder_effect_writeOlderVersion {slot : ℕ} {v : Version (Row k.table)}
    (hv : wr.verb = .writeOlderVersion k slot v) :
    (s.effect c i wr answer).holder k = (s.holder k).map fun p => (p.1, .saved) := by
  obtain ⟨o, verb, sig⟩ := wr
  cases hv
  simp [holder_effect, Event.hold]

theorem mine_eq_some {p : Ticket × Stage} :
    s.mine c k = some p ↔ s.holder k = some p ∧ p.1.client = c := by
  simp [mine, Option.filter_eq_some_iff]

theorem mine_eq_none_of_holder (h : s.holder k = none) : s.mine c k = none := by
  simp [mine, h]

theorem mine_eq_none_of_ne {p : Ticket × Stage} (h : s.holder k = some p)
    (hne : p.1.client ≠ c) : s.mine c k = none := by
  simp [mine, h, Option.filter, hne]

/-! ## Commit timestamps -/

theorem acquired_setClient : (s.setClient c cl o l).acquired c' =
    s.acquired c' + if Event.acquires c' (.cpu c o l) then 1 else 0 := by
  simp [acquired, List.countP_cons]

theorem acquired_setClient_acquire {cts : UInt32} :
    (s.setClient c cl o (.acquire cts)).acquired c = s.acquired c + 1 := by
  simp [acquired_setClient, Event.acquires]

theorem acquired_setClient_of_ne (h : c' ≠ c) :
    (s.setClient c cl o l).acquired c' = s.acquired c' := by
  cases l <;> simp [acquired_setClient, Event.acquires, h.symm]

theorem acquired_setClient_of_label (h : ∀ cts, l ≠ .acquire cts) :
    (s.setClient c cl o l).acquired c' = s.acquired c' := by
  cases l with
  | acquire cts => exact absurd rfl (h cts)
  | _ => simp [acquired_setClient, Event.acquires]

@[simp] theorem acquired_effect : (s.effect c i wr answer).acquired c' = s.acquired c' := by
  simp [acquired, Event.acquires]

@[simp] theorem acquired_readOracle : (s.readOracle g).acquired c = s.acquired c := by
  simp [acquired, Event.acquires]

theorem acquired_le_setClient : s.acquired c' ≤ (s.setClient c cl o l).acquired c' := by
  rw [acquired_setClient]
  omega

end State

theorem NoWrap.of_step {s' : State} {a : Action} (h : NoWrap cfg s')
    (ha : step cfg s a = some s') : NoWrap cfg s := by
  intro c hc
  have hle : s.acquired c ≤ s'.acquired c := by
    rcases step_cases ha with ⟨c', vec, cl, o, l, -, -, rfl⟩ | ⟨c', i, wr, answer, -, -, rfl⟩ |
      ⟨g, -, rfl⟩
    · exact State.acquired_le_setClient
    · exact Nat.le_of_eq State.acquired_effect.symm
    · exact Nat.le_of_eq State.acquired_readOracle.symm
  exact Nat.lt_of_le_of_lt (Nat.add_le_add_right (Nat.mul_le_mul_right _ hle) _) (h c hc)

end RdmaSnapshot
