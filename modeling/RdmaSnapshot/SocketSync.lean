import RdmaSnapshot.Lib.Region
import RdmaSnapshot.Lib.WhileLoop
import Mathlib.Algebra.Order.Ring.Int

/-!
# Exchanging data over a socket

`utils::sock_sync_data` writes `xfer_size` bytes to a socket and then reads until it has received
`xfer_size` bytes from the peer. Every `read` stores what it gets at the start of `remote_data`, not
behind what is there already. The end of the file makes `read` return zero, which is also the value
of `rc` that keeps the loop going, and a `write` that returns zero is not told apart from a complete
one either.

What the peer sends arrives in segments. A `read` returns the next segment, or as much of it as it
asks for. So the segments are the peer's stream together with the way it is split.
-/

namespace RdmaSnapshot

namespace Utils

/-! ## The socket -/

/-- What a `read` does when all that was sent has been read. -/
inductive Ending
  /-- The peer closed the connection: `read` returns `0`. -/
  | endOfFile
  /-- `read` returns `-1`. -/
  | failed
  /-- The peer is there but sends nothing more: `read` waits. -/
  | silent
  deriving DecidableEq

structure Socket where
  /-- The result of `write`. -/
  written : ℤ
  arrivals : List (List UInt8)
  arrivals_ne_nil : ∀ segment ∈ arrivals, segment ≠ []
  ending : Ending

def Socket.stream (sock : Socket) : List UInt8 := sock.arrivals.flatten

/-- A `read` of up to `count` bytes: its result, the bytes it stores, and what has not been read
yet. `none` waits for ever. -/
def read (ending : Ending) (count : ℕ) :
    List (List UInt8) → Option (ℤ × List UInt8 × List (List UInt8))
  | [] =>
    match ending with
    | .endOfFile => some (0, [], [])
    | .failed => some (-1, [], [])
    | .silent => none
  | segment :: arrivals =>
    if segment.length ≤ count then some (segment.length, segment, arrivals)
    else some (count, segment.take count, segment.drop count :: arrivals)

/-! ## `sock_sync_data` -/

/-- The variables of `sock_sync_data`, the memory at `remote_data` and what has not been read
yet. -/
structure SyncState where
  rc : ℤ
  total_read_bytes : ℤ
  remote_data : Region UInt8
  arrivals : List (List UInt8)

def syncBody (ending : Ending) (xfer_size : ℤ) (s : SyncState) : Option SyncState :=
  match read ending (xfer_size - s.total_read_bytes).toNat s.arrivals with
  | none => none
  | some (read_bytes, bytes, arrivals) =>
    let s := { s with remote_data := s.remote_data.write 0 bytes, arrivals }
    if 0 < read_bytes then
      some { s with total_read_bytes := s.total_read_bytes + read_bytes }
    else some { s with rc := read_bytes }

/-- The loop, with at most `fuel` calls of `read`. -/
def syncLoop (ending : Ending) (xfer_size : ℤ) : ℕ → SyncState → Option SyncState :=
  WhileLoop.run (fun s => s.rc = 0 ∧ s.total_read_bytes < xfer_size) (syncBody ending xfer_size)

def Socket.start (sock : Socket) (xfer_size : ℤ) (remote_data : Region UInt8) : SyncState where
  rc := if sock.written < xfer_size then sock.written else 0
  total_read_bytes := 0
  remote_data := remote_data
  arrivals := sock.arrivals

/-- `utils::sock_sync_data` with at most `fuel` calls of `read`: the result and what is at
`remote_data` then. The conversion of `rc` to the result type `size_t` keeps zero and nonzero
values apart. -/
def sock_sync_data (sock : Socket) (xfer_size : ℤ) (remote_data : Region UInt8) (fuel : ℕ) :
    Option (ℤ × Region UInt8) :=
  (syncLoop sock.ending xfer_size fuel (sock.start xfer_size remote_data)).map fun s =>
    (s.rc, s.remote_data)

/-! ## Fragments -/

/-- The pieces in which the first `n` bytes arrive. -/
def fragments : ℕ → List (List UInt8) → List (List UInt8)
  | 0, _ => []
  | _ + 1, [] => []
  | n + 1, segment :: arrivals =>
    segment.take (n + 1) :: fragments (n + 1 - segment.length) arrivals

/-- The contents of a buffer at whose start pieces were stored one after another. -/
def overlay (m : Region UInt8) (pieces : List (List UInt8)) : Region UInt8 :=
  pieces.foldl (fun m bytes => m.write 0 bytes) m

theorem overlay_apply (m : Region UInt8) (pieces : List (List UInt8)) (p : ℕ) :
    overlay m pieces p = ((pieces.filterMap (·[p]?)).getLast?).getD (m p) := by
  induction pieces generalizing m with
  | nil => rfl
  | cons bytes pieces ih =>
    have hwrite : m.write 0 bytes p = (bytes[p]?).getD (m p) := by
      rw [Region.write, if_pos (Nat.zero_le p), Nat.sub_zero, List.getD_eq_getElem?_getD]
    rw [overlay, List.foldl_cons]
    change overlay (m.write 0 bytes) pieces p = _
    rw [ih, hwrite, List.filterMap_cons]
    cases bytes[p]? with
    | none => rfl
    | some b => simp [List.getLast?_cons]

/-! ## The loop -/

section Loop

variable {ending : Ending} {xfer_size t : ℤ} {m : Region UInt8} {segment : List UInt8}
  {arrivals : List (List UInt8)} {fuel : ℕ}

theorem syncBody_of_le (hne : segment ≠ [])
    (hle : segment.length ≤ (xfer_size - t).toNat) :
    syncBody ending xfer_size ⟨0, t, m, segment :: arrivals⟩ =
      some ⟨0, t + segment.length, m.write 0 segment, arrivals⟩ := by
  simp [syncBody, read, hle, List.length_pos_iff.2 hne]

theorem syncBody_of_gt (ht : t < xfer_size) (hgt : (xfer_size - t).toNat < segment.length) :
    ∃ rest, syncBody ending xfer_size ⟨0, t, m, segment :: arrivals⟩ =
      some ⟨0, xfer_size, m.write 0 (segment.take (xfer_size - t).toNat), rest⟩ := by
  have hcount : ((xfer_size - t).toNat : ℤ) = xfer_size - t := Int.toNat_of_nonneg (by omega)
  refine ⟨segment.drop (xfer_size - t).toNat :: arrivals, ?_⟩
  simp only [syncBody, read, if_neg (Nat.not_le.2 hgt), hcount, if_pos (sub_pos.2 ht)]
  rw [add_sub_cancel]

theorem syncLoop_of_enough (hne : ∀ segment ∈ arrivals, segment ≠ []) (ht : t ≤ xfer_size)
    (henough : xfer_size ≤ t + arrivals.flatten.length) (hfuel : arrivals.length ≤ fuel) :
    ∃ rest, syncLoop ending xfer_size fuel ⟨0, t, m, arrivals⟩ =
      some ⟨0, xfer_size, overlay m (fragments (xfer_size - t).toNat arrivals), rest⟩ := by
  induction arrivals generalizing t m fuel with
  | nil =>
    obtain rfl : t = xfer_size := le_antisymm ht (by simpa using henough)
    refine ⟨[], ?_⟩
    rw [sub_self]
    exact WhileLoop.run_of_not fun h => lt_irrefl _ h.2
  | cons segment arrivals ih =>
    rcases ht.eq_or_lt with rfl | hlt
    · refine ⟨segment :: arrivals, ?_⟩
      rw [sub_self]
      exact WhileLoop.run_of_not fun h => lt_irrefl _ h.2
    obtain ⟨n, hn⟩ : ∃ n : ℕ, (xfer_size - t).toNat = n + 1 :=
      Nat.exists_eq_add_of_lt (by omega : 0 < (xfer_size - t).toNat) |>.imp fun n h => by omega
    obtain ⟨fuel, rfl⟩ : ∃ f, fuel = f + 1 :=
      ⟨fuel - 1, by simp only [List.length_cons] at hfuel; omega⟩
    rcases Nat.lt_or_ge (xfer_size - t).toNat segment.length with hgt | hle
    · -- The segment has all that is missing.
      obtain ⟨rest, hbody⟩ :
          ∃ rest, syncBody ending xfer_size ⟨0, t, m, segment :: arrivals⟩ = some
            ⟨0, xfer_size, m.write 0 (segment.take (xfer_size - t).toNat), rest⟩ :=
        syncBody_of_gt hlt hgt
      refine ⟨rest, ?_⟩
      rw [syncLoop, WhileLoop.run_succ ⟨rfl, hlt⟩ hbody,
        WhileLoop.run_of_not fun h => lt_irrefl _ h.2, hn, fragments]
      have hnone : n + 1 - segment.length = 0 := by omega
      rw [hnone, fragments]
      rfl
    · have hbody : syncBody ending xfer_size ⟨0, t, m, segment :: arrivals⟩ =
          some ⟨0, t + segment.length, m.write 0 segment, arrivals⟩ :=
        syncBody_of_le (hne segment List.mem_cons_self) hle
      have hrest : (xfer_size - (t + segment.length)).toNat = n + 1 - segment.length := by omega
      rw [List.flatten_cons, List.length_append, Nat.cast_add, ← add_assoc] at henough
      obtain ⟨rest, hrun⟩ : ∃ rest, syncLoop ending xfer_size fuel
          ⟨0, t + segment.length, m.write 0 segment, arrivals⟩ = some ⟨0, xfer_size, _, rest⟩ :=
        ih (fun s hs => hne s (List.mem_cons_of_mem _ hs)) (by omega) henough
          (by simpa using hfuel)
      refine ⟨rest, ?_⟩
      rw [syncLoop] at hrun ⊢
      rw [WhileLoop.run_succ ⟨rfl, hlt⟩ hbody, hrun, hn, fragments,
        List.take_of_length_le (by omega), hrest]
      rfl

/-- If the connection fails before enough bytes arrived, the loop is left with `-1`. -/
theorem syncLoop_of_failed (hne : ∀ segment ∈ arrivals, segment ≠ [])
    (hmissing : t + arrivals.flatten.length < xfer_size) (hfuel : arrivals.length < fuel) :
    ∃ s, syncLoop .failed xfer_size fuel ⟨0, t, m, arrivals⟩ = some s ∧ s.rc = -1 := by
  induction arrivals generalizing t m fuel with
  | nil =>
    obtain ⟨fuel, rfl⟩ : ∃ f, fuel = f + 1 := ⟨fuel - 1, by simp at hfuel; omega⟩
    have ht : t < xfer_size := by simpa using hmissing
    have hbody : syncBody .failed xfer_size ⟨0, t, m, []⟩ = some ⟨-1, t, m.write 0 [], []⟩ := rfl
    refine ⟨⟨-1, t, m.write 0 [], []⟩, ?_, rfl⟩
    rw [syncLoop, WhileLoop.run_succ ⟨rfl, ht⟩ hbody]
    exact WhileLoop.run_of_not (by simp)
  | cons segment arrivals ih =>
    obtain ⟨fuel, rfl⟩ : ∃ f, fuel = f + 1 :=
      ⟨fuel - 1, by simp only [List.length_cons] at hfuel; omega⟩
    rw [List.flatten_cons, List.length_append, Nat.cast_add, ← add_assoc] at hmissing
    have ht : t < xfer_size := by omega
    have hbody : syncBody .failed xfer_size ⟨0, t, m, segment :: arrivals⟩ =
        some ⟨0, t + segment.length, m.write 0 segment, arrivals⟩ :=
      syncBody_of_le (hne segment List.mem_cons_self) (by omega)
    rw [syncLoop, WhileLoop.run_succ ⟨rfl, ht⟩ hbody]
    exact ih (fun s hs => hne s (List.mem_cons_of_mem _ hs)) hmissing (by simpa using hfuel)

/-- What stays true while bytes are missing. -/
structure Missing (xfer_size : ℤ) (s : SyncState) : Prop where
  rc : s.rc = 0
  segments : ∀ segment ∈ s.arrivals, segment ≠ []
  missing : s.total_read_bytes + s.arrivals.flatten.length < xfer_size

theorem Missing.lt {s : SyncState} (h : Missing xfer_size s) : s.total_read_bytes < xfer_size := by
  have := h.missing
  omega

theorem Missing.syncBody {s s' : SyncState} (h : Missing xfer_size s) (hending : ending ≠ .failed)
    (hbody : syncBody ending xfer_size s = some s') : Missing xfer_size s' := by
  obtain ⟨rc, t, m, arrivals⟩ := s
  obtain ⟨rfl : rc = 0, hne, hmissing⟩ := h
  cases arrivals with
  | nil =>
    cases ending with
    | endOfFile =>
      cases hbody
      exact ⟨rfl, hne, hmissing⟩
    | failed => exact absurd rfl hending
    | silent => cases hbody
  | cons segment arrivals =>
    simp only [List.flatten_cons, List.length_append, Nat.cast_add, ← add_assoc] at hmissing
    rw [syncBody_of_le (hne segment List.mem_cons_self) (by omega)] at hbody
    cases hbody
    exact ⟨rfl, fun s hs => hne s (List.mem_cons_of_mem _ hs), hmissing⟩

theorem syncLoop_of_missing {s : SyncState} (hs : Missing xfer_size s)
    (hending : ending ≠ .failed) :
    syncLoop ending xfer_size fuel s = none :=
  WhileLoop.run_eq_none (Missing xfer_size) (fun _ h => ⟨h.rc, h.lt⟩)
    (fun _ _ h hbody => h.syncBody hending hbody) hs

end Loop

/-! ## What the function returns -/

section Result

variable (sock : Socket) (xfer_size : ℤ) (remote_data : Region UInt8)

/-- `write` reported an error or took a part of the data only. -/
def Socket.ReportedShort : Prop := sock.written ≠ 0 ∧ sock.written < xfer_size

/-- What is at `remote_data` when the loop is left with all the bytes. -/
def received : Region UInt8 := overlay remote_data (fragments xfer_size.toNat sock.arrivals)

variable {sock xfer_size remote_data} {fuel : ℕ}

theorem start_of_not (h : ¬ sock.ReportedShort xfer_size) :
    sock.start xfer_size remote_data = ⟨0, 0, remote_data, sock.arrivals⟩ := by
  have hrc : (if sock.written < xfer_size then sock.written else 0) = 0 := by
    split
    · next hlt => exact not_not.1 fun hne => h ⟨hne, hlt⟩
    · rfl
  rw [Socket.start, hrc]

/-- No byte is read after a `write` that reported an error or a part. -/
theorem sock_sync_data_of_reportedShort (h : sock.ReportedShort xfer_size) :
    sock_sync_data sock xfer_size remote_data fuel = some (sock.written, remote_data) := by
  have hrc : (sock.start xfer_size remote_data).rc = sock.written := if_pos h.2
  have hleft : syncLoop sock.ending xfer_size fuel (sock.start xfer_size remote_data) =
      some (sock.start xfer_size remote_data) :=
    WhileLoop.run_of_not fun hcond => h.1 (hrc.symm.trans hcond.1)
  rw [sock_sync_data, hleft, Option.map_some, hrc]
  rfl

theorem sock_sync_data_of_enough (hwrite : ¬ sock.ReportedShort xfer_size)
    (henough : xfer_size ≤ sock.stream.length) (hfuel : sock.arrivals.length ≤ fuel) :
    sock_sync_data sock xfer_size remote_data fuel =
      some (0, received sock xfer_size remote_data) := by
  rw [sock_sync_data, start_of_not hwrite, received]
  rcases lt_or_ge xfer_size 0 with hneg | hnonneg
  · have hnone : xfer_size.toNat = 0 := Int.toNat_of_nonpos hneg.le
    rw [syncLoop, WhileLoop.run_of_not fun h => lt_asymm hneg h.2, hnone, fragments]
    rfl
  · obtain ⟨rest, hrun⟩ : ∃ rest, syncLoop sock.ending xfer_size fuel
        ⟨0, 0, remote_data, sock.arrivals⟩ = some ⟨0, xfer_size, _, rest⟩ :=
      syncLoop_of_enough sock.arrivals_ne_nil hnonneg (by rwa [zero_add]) hfuel
    rw [hrun, sub_zero]
    rfl

theorem sock_sync_data_of_failed (hwrite : ¬ sock.ReportedShort xfer_size)
    (hmissing : sock.stream.length < xfer_size) (hending : sock.ending = .failed)
    (hfuel : sock.arrivals.length < fuel) :
    ∃ remote', sock_sync_data sock xfer_size remote_data fuel = some (-1, remote') := by
  obtain ⟨s, hrun, hrc⟩ : ∃ s, syncLoop .failed xfer_size fuel
      ⟨0, 0, remote_data, sock.arrivals⟩ = some s ∧ s.rc = -1 :=
    syncLoop_of_failed sock.arrivals_ne_nil (by rwa [zero_add]) hfuel
  refine ⟨s.remote_data, ?_⟩
  rw [sock_sync_data, start_of_not hwrite, hending, hrun, Option.map_some, hrc]

theorem sock_sync_data_of_missing (hwrite : ¬ sock.ReportedShort xfer_size)
    (hmissing : sock.stream.length < xfer_size) (hending : sock.ending ≠ .failed) :
    sock_sync_data sock xfer_size remote_data fuel = none := by
  have hstart : Missing xfer_size ⟨0, 0, remote_data, sock.arrivals⟩ :=
    ⟨rfl, sock.arrivals_ne_nil, by rwa [zero_add]⟩
  rw [sock_sync_data, start_of_not hwrite, syncLoop_of_missing hstart hending]
  rfl

/-- The fuel does not matter for a call that returns. -/
theorem sock_sync_data_unique {fuel' : ℕ} {r r' : ℤ × Region UInt8}
    (h : sock_sync_data sock xfer_size remote_data fuel = some r)
    (h' : sock_sync_data sock xfer_size remote_data fuel' = some r') : r = r' := by
  rw [sock_sync_data, Option.map_eq_some_iff] at h h'
  obtain ⟨s, hs, rfl⟩ := h
  obtain ⟨s', hs', rfl⟩ := h'
  rw [WhileLoop.run_unique hs hs']

/-- If the result is zero, nothing is missing, and the fragments were stored one over the other. -/
theorem eq_received_of_zero {remote' : Region UInt8}
    (h : sock_sync_data sock xfer_size remote_data fuel = some (0, remote')) :
    ¬ sock.ReportedShort xfer_size ∧ xfer_size ≤ sock.stream.length ∧
      remote' = received sock xfer_size remote_data := by
  have hwrite : ¬ sock.ReportedShort xfer_size := by
    intro hshort
    rw [sock_sync_data_of_reportedShort hshort] at h
    exact hshort.1 (Prod.mk.inj (Option.some.inj h)).1
  have henough : xfer_size ≤ sock.stream.length := by
    by_contra hmissing
    rw [not_le] at hmissing
    by_cases hending : sock.ending = .failed
    · obtain ⟨m, hm⟩ := sock_sync_data_of_failed hwrite hmissing hending
        (Nat.lt_succ_self sock.arrivals.length)
      cases sock_sync_data_unique h hm
    · rw [sock_sync_data_of_missing hwrite hmissing hending] at h
      cases h
  refine ⟨hwrite, henough, ?_⟩
  exact (Prod.mk.inj (sock_sync_data_unique h
    (sock_sync_data_of_enough hwrite henough le_rfl))).2

variable (sock xfer_size remote_data)

/-! ## Reassembly -/

/-- A result of zero means that `write` took all the data and that `remote_data` holds the first
`xfer_size` bytes of what the peer sends. -/
def Reassembles : Prop := ∀ fuel remote',
  sock_sync_data sock xfer_size remote_data fuel = some (0, remote') →
    sock.written = xfer_size ∧ ∀ p : ℕ, p < xfer_size → sock.stream[p]? = some (remote' p)

/-- At every position, the last fragment that reaches it has, at this place, the byte of the
stream that belongs there; positions that none reaches hold it from before. -/
def LastFragmentsFit : Prop := ∀ p : ℕ, p < xfer_size →
  let reaching := (fragments xfer_size.toNat sock.arrivals).filterMap (·[p]?)
  sock.stream[p]? = some (reaching.getLast?.getD (remote_data p))

/-- **When the peer's data is reassembled.** Unless `write` reports an error or a part, or too few
bytes arrive, `write` must not have returned zero, and for every position the last fragment that
reaches it must have the right byte. -/
theorem sock_sync_data_received_iff :
    Reassembles sock xfer_size remote_data ↔
      sock.ReportedShort xfer_size ∨ sock.stream.length < xfer_size ∨
        sock.written = xfer_size ∧ LastFragmentsFit sock xfer_size remote_data := by
  constructor
  · intro h
    by_cases hwrite : sock.ReportedShort xfer_size
    · exact .inl hwrite
    refine .inr ((lt_or_ge _ _).imp_right fun henough => ?_)
    obtain ⟨hall, hdata⟩ := h _ _ (sock_sync_data_of_enough hwrite henough le_rfl)
    refine ⟨hall, ?_⟩
    intro p hp
    rw [hdata p hp, received, overlay_apply]
  · rintro h fuel remote' hzero
    obtain ⟨hwrite, henough, rfl⟩ := eq_received_of_zero hzero
    obtain hshort | hmissing | ⟨hall, hfit⟩ := h
    · exact absurd hshort hwrite
    · exact absurd henough (not_le.2 hmissing)
    · refine ⟨hall, ?_⟩
      intro p hp
      rw [received, overlay_apply]
      exact hfit p hp

/-- **Data that is not reassembled.** The two bytes 1 and 2 arrive one by one, and the second
overwrites the first; or they arrive together after a `write` that took nothing. -/
theorem not_reassembles :
    let zeros : Region UInt8 := fun _ => 0
    let split : Socket := ⟨2, [[1], [2]], by decide, .silent⟩
    let unwritten : Socket := ⟨0, [[1, 2]], by decide, .silent⟩
    sock_sync_data split 2 zeros 2 = some (0, received split 2 zeros) ∧
      (received split 2 zeros).read 0 2 = [2, 0] ∧ ¬ Reassembles split 2 zeros ∧
      sock_sync_data unwritten 2 zeros 1 = some (0, received unwritten 2 zeros) ∧
      ¬ Reassembles unwritten 2 zeros := by
  intro zeros split unwritten
  have hsplit : sock_sync_data split 2 zeros 2 = some (0, received split 2 zeros) :=
    sock_sync_data_of_enough (fun h => lt_irrefl _ h.2) (by decide) le_rfl
  have hunwritten : sock_sync_data unwritten 2 zeros 1 = some (0, received unwritten 2 zeros) :=
    sock_sync_data_of_enough (fun h => h.1 rfl) (by decide) le_rfl
  refine ⟨hsplit, by decide +kernel, ?_, hunwritten, ?_⟩
  · intro h
    have hbyte := (h 2 _ hsplit).2 0 (by decide)
    revert hbyte
    decide +kernel
  · intro h
    have hall := (h 1 _ hunwritten).1
    revert hall
    decide

/-- Two bytes that arrive together are reassembled. -/
example :
    LastFragmentsFit ⟨2, [[1, 2]], by decide, .silent⟩ 2 fun _ => 0 := by
  intro p hp
  obtain rfl | rfl : p = 0 ∨ p = 1 := by omega
  · rfl
  · rfl

/-! ## Termination -/

/-- The function returns after finitely many calls of `read`, and if fewer than `xfer_size` bytes
arrived, its result is not zero. -/
def ReturnsProperly : Prop := ∃ fuel rc remote',
  sock_sync_data sock xfer_size remote_data fuel = some (rc, remote') ∧
    (sock.stream.length < xfer_size → rc ≠ 0)

/-- **When the function notices the end.** It returns and reports missing data if and only if
`write` reports an error or a part, enough bytes arrive, or the connection ends with an error. -/
theorem sock_sync_data_returns_iff :
    ReturnsProperly sock xfer_size remote_data ↔
      sock.ReportedShort xfer_size ∨ xfer_size ≤ sock.stream.length ∨ sock.ending = .failed := by
  constructor
  · rintro ⟨fuel, rc, remote', hreturns, -⟩
    by_cases hwrite : sock.ReportedShort xfer_size
    · exact .inl hwrite
    refine .inr ((le_or_gt _ _).imp_right fun hmissing => ?_)
    by_contra hending
    rw [sock_sync_data_of_missing hwrite hmissing hending] at hreturns
    cases hreturns
  · intro h
    by_cases hwrite : sock.ReportedShort xfer_size
    · exact ⟨0, sock.written, remote_data, sock_sync_data_of_reportedShort hwrite,
        fun _ => hwrite.1⟩
    rcases le_or_gt xfer_size sock.stream.length with henough | hmissing
    · exact ⟨_, 0, _, sock_sync_data_of_enough hwrite henough le_rfl,
        fun hmissing => absurd henough (not_le.2 hmissing)⟩
    · have hending : sock.ending = .failed :=
        (h.resolve_left hwrite).resolve_left (not_le.2 hmissing)
      obtain ⟨remote', hreturns⟩ :=
        sock_sync_data_of_failed hwrite hmissing hending (Nat.lt_succ_self sock.arrivals.length)
      exact ⟨_, -1, remote', hreturns, fun _ => by decide⟩

/-- **The end of the file is waited out.** The peer closes the connection after one of two bytes:
the loop goes on for ever. -/
theorem not_returnsProperly_endOfFile :
    let sock : Socket := ⟨2, [[1]], by decide, .endOfFile⟩
    (∀ fuel, sock_sync_data sock 2 (fun _ => 0) fuel = none) ∧
      ¬ ReturnsProperly sock 2 fun _ => 0 := by
  intro sock
  have hnone : ∀ fuel, sock_sync_data sock 2 (fun _ => 0) fuel = none := fun fuel =>
    sock_sync_data_of_missing (fun h => lt_irrefl _ h.2) (by decide) (by decide)
  refine ⟨hnone, ?_⟩
  rintro ⟨fuel, rc, remote', hreturns, -⟩
  rw [hnone fuel] at hreturns
  cases hreturns

end Result

end Utils

end RdmaSnapshot
