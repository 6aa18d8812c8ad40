import Mathlib.Data.Int.Notation
import RdmaSnapshot.Lib.SlidingWindow

/-!
# Adaptive snapshots of the one-sided client

`one-sided-RDMA/client/TPCW_Client.cpp`: with `ADAPTIVE_ABORT_RATE` a client keeps the snapshot of
its last transaction unless too many of its recent transactions have aborted. It has the results of
the recent ones in a deque, and counts the aborts among them as results enter and leave. A
transaction has three exits, and at each of them the deque and the counter are brought up to date by
code of its own.
-/

namespace RdmaSnapshot.TPCW.OneSided

structure Config where
  ADAPTIVE_ABORT_RATE : Bool
  MAX_ABORT_RATE : Float
  ADAPTIVE_WINDOW_SIZE : ℕ

inductive Result
  | ABORTED | COMMITTED
  deriving DecidableEq, Repr

/-- The ways a transaction ends: some version it read is locked or not of its snapshot; some lock
could not be acquired; it is installed. -/
inductive Exit
  | inconsistentSnapshot | unsuccessfulLock | committed
  deriving DecidableEq, Repr

def Exit.result : Exit → Result
  | .inconsistentSnapshot | .unsuccessfulLock => .ABORTED
  | .committed => .COMMITTED

/-- The counters of `startTransactions`, and the deque with its front first. None of the counters
exceeds the number of transactions, which is counted in an `int` as well. -/
structure Locals where
  abort_cnt : ℤ
  abort_due_to_inconsistent_snapshot_cnt : ℤ
  abort_due_to_lock_cnt : ℤ
  recent_commit_results : List Result
  recent_abort_cnt : ℤ
  snapshot_acquisition_cnt : ℤ

namespace Locals

variable (cfg : Config) (s : Locals)

def start : Locals := ⟨0, 0, 0, [], 0, 0⟩

def abort_rate_recent_average : Float :=
  Float.ofInt s.recent_abort_cnt / Float.ofNat s.recent_commit_results.length

def needsSnapshot : Bool :=
  if cfg.ADAPTIVE_ABORT_RATE then
    if 0 < s.recent_commit_results.length then
      decide (cfg.MAX_ABORT_RATE ≤ s.abort_rate_recent_average)
    else true
  else true

def acquireSnapshot : Locals :=
  if s.needsSnapshot cfg then { s with snapshot_acquisition_cnt := s.snapshot_acquisition_cnt + 1 }
  else s

/-- What the exits have in common: the oldest result leaves a deque that has become too long. -/
def popOldest : Locals :=
  if cfg.ADAPTIVE_WINDOW_SIZE < s.recent_commit_results.length then
    let s := if s.recent_commit_results.head? = some .ABORTED then
        { s with recent_abort_cnt := s.recent_abort_cnt - 1 }
      else s
    { s with recent_commit_results := s.recent_commit_results.tail }
  else s

def push_back (r : Result) : Locals :=
  { s with recent_commit_results := s.recent_commit_results ++ [r] }

def snapshotAbort : Locals :=
  let s := { s with abort_cnt := s.abort_cnt + 1 }
  let s := { s with
    abort_due_to_inconsistent_snapshot_cnt := s.abort_due_to_inconsistent_snapshot_cnt + 1 }
  let s := { s with recent_abort_cnt := s.recent_abort_cnt + 1 }
  (s.push_back .ABORTED).popOldest cfg

def lockAbort : Locals :=
  let s := { s with abort_cnt := s.abort_cnt + 1 }
  let s := { s with abort_due_to_lock_cnt := s.abort_due_to_lock_cnt + 1 }
  let s := s.push_back .ABORTED
  let s := { s with recent_abort_cnt := s.recent_abort_cnt + 1 }
  s.popOldest cfg

def commit : Locals := (s.push_back .COMMITTED).popOldest cfg

def transaction : Exit → Locals
  | .inconsistentSnapshot => (s.acquireSnapshot cfg).snapshotAbort cfg
  | .unsuccessfulLock => (s.acquireSnapshot cfg).lockAbort cfg
  | .committed => (s.acquireSnapshot cfg).commit cfg

end Locals

/-- `TPCW_Client::startTransactions`, with one exit for every iteration. -/
def startTransactions (cfg : Config) (exits : List Exit) : Locals :=
  exits.foldl (Locals.transaction cfg) .start

/-! ## The window -/

def abortRate (results : List Result) : Float :=
  Float.ofNat (results.count .ABORTED) / Float.ofNat results.length

/-- The deque and the counter after transactions with the given results. -/
structure Windowed (cfg : Config) (results : List Result) (s : Locals) : Prop where
  recent : s.recent_commit_results = results.rtake cfg.ADAPTIVE_WINDOW_SIZE
  aborts : s.recent_abort_cnt = s.recent_commit_results.count .ABORTED

variable {cfg : Config} {results : List Result} {s : Locals}

/-- A result has been pushed and counted, in whatever order. -/
theorem Windowed.popOldest {s' : Locals} {r : Result} (h : Windowed cfg results s)
    (hrecent : s'.recent_commit_results = s.recent_commit_results ++ [r])
    (haborts : s'.recent_abort_cnt = s.recent_abort_cnt + [r].count .ABORTED) :
    Windowed cfg (results ++ [r]) (s'.popOldest cfg) := by
  have hcount : s'.recent_abort_cnt = s'.recent_commit_results.count .ABORTED := by
    rw [haborts, h.aborts, hrecent, List.count_append, Int.natCast_add]
  have hqueue : (s'.popOldest cfg).recent_commit_results =
      SlidingWindow.evict cfg.ADAPTIVE_WINDOW_SIZE s'.recent_commit_results := by
    unfold Locals.popOldest SlidingWindow.evict
    split
    · split <;> rfl
    · rfl
  constructor
  · rw [hqueue, hrecent, h.recent, SlidingWindow.evict_rtake_concat]
  · rw [hqueue, SlidingWindow.count_evict, ← hcount]
    unfold Locals.popOldest
    split
    · rename_i hlong
      split
      · rename_i hfront
        simp [hlong, hfront]
      · rename_i hfront
        simp [hfront]
    · rename_i hshort
      simp [hshort]

theorem Windowed.acquireSnapshot (h : Windowed cfg results s) :
    Windowed cfg results (s.acquireSnapshot cfg) := by
  unfold Locals.acquireSnapshot
  split
  · exact ⟨h.recent, h.aborts⟩
  · exact h

theorem Windowed.transaction (h : Windowed cfg results s) (exit : Exit) :
    Windowed cfg (results ++ [exit.result]) (s.transaction cfg exit) := by
  cases exit with
  | inconsistentSnapshot => exact h.acquireSnapshot.popOldest rfl rfl
  | unsuccessfulLock => exact h.acquireSnapshot.popOldest rfl rfl
  | committed => exact h.acquireSnapshot.popOldest rfl (Int.add_zero _).symm

theorem windowed_startTransactions (cfg : Config) (exits : List Exit) :
    Windowed cfg (exits.map Exit.result) (startTransactions cfg exits) := by
  induction exits using List.reverseRecOn with
  | nil => exact ⟨(List.rtake_nil _).symm, rfl⟩
  | append_singleton exits exit ih =>
    rw [startTransactions, List.foldl_append, List.map_append]
    exact ih.transaction exit

/-- **The abort window.** After every run of the client the deque holds the results of its last
`ADAPTIVE_WINDOW_SIZE` transactions, or of all if there were fewer, and the counter is the number of
aborts among them. So the client goes on with its snapshot exactly if the rate of aborts in that
window allows it. -/
theorem abortWindow (cfg : Config) (hW : 1 ≤ cfg.ADAPTIVE_WINDOW_SIZE) (exits : List Exit) :
    let s := startTransactions cfg exits
    let window := (exits.map Exit.result).rtake cfg.ADAPTIVE_WINDOW_SIZE
    s.recent_commit_results = window ∧
    window.length = min exits.length cfg.ADAPTIVE_WINDOW_SIZE ∧
    s.recent_abort_cnt = window.count .ABORTED ∧
    s.abort_rate_recent_average = abortRate window ∧
    s.needsSnapshot cfg = (!cfg.ADAPTIVE_ABORT_RATE || exits.isEmpty ||
      decide (cfg.MAX_ABORT_RATE ≤ abortRate window)) := by
  intro s window
  have hwindowed := windowed_startTransactions cfg exits
  have hrecent : s.recent_commit_results = window := hwindowed.recent
  have hlength : window.length = min exits.length cfg.ADAPTIVE_WINDOW_SIZE := by
    rw [SlidingWindow.length_rtake, List.length_map]
  have haborts : s.recent_abort_cnt = window.count .ABORTED := by
    rw [← hrecent]
    exact hwindowed.aborts
  have hrate : s.abort_rate_recent_average = abortRate window := by
    rw [Locals.abort_rate_recent_average, haborts, hrecent]
    rfl
  refine ⟨hrecent, hlength, haborts, hrate, ?_⟩
  rw [Locals.needsSnapshot, hrate, hrecent, hlength]
  cases exits with
  | nil => simp
  | cons exit exits =>
    have hpos : 0 < min (exit :: exits).length cfg.ADAPTIVE_WINDOW_SIZE := by
      rw [List.length_cons]
      omega
    rw [if_pos hpos]
    cases cfg.ADAPTIVE_ABORT_RATE <;> simp

theorem abortWindow_three : ∃ cfg : Config, 1 ≤ cfg.ADAPTIVE_WINDOW_SIZE ∧
    let s := startTransactions cfg [.unsuccessfulLock, .committed, .inconsistentSnapshot,
      .committed]
    s.recent_commit_results = [.COMMITTED, .ABORTED, .COMMITTED] ∧ s.recent_abort_cnt = 1 := by
  refine ⟨⟨true, 0.1, 3⟩, by decide, ?_⟩
  obtain ⟨hrecent, -, haborts, -, -⟩ := abortWindow ⟨true, 0.1, 3⟩ (by decide)
    [.unsuccessfulLock, .committed, .inconsistentSnapshot,
      .committed]
  exact ⟨hrecent, haborts⟩

end RdmaSnapshot.TPCW.OneSided
