import RdmaSnapshot.TPCW.ItemLocks

/-!
# Items and their lock words

The memory of the RSI servers is a family of cells with versioned locks, one for every item, and
every operation on a queue pair is an operation of that library on the cell of the item of the
cart line. This needs that commit timestamps fit into the 32 bits of a version and that the version
a client read is older than its commit timestamp.
-/

namespace RdmaSnapshot.TPCW.RSI

open VersionLock

/-! ## Cells -/

theorem Lock.toNat_version {lock_status : UInt32} {n : ℕ} (h : n < 2 ^ 32) :
    (Lock.set_lock lock_status n).version.toNat = n :=
  UInt32.toNat_ofNat_of_lt h

namespace Server

variable (server : Server)

def cell (x : ℕ) : Cell ItemVersion :=
  ⟨(server.lock_items_region x).lock_status != 0, (server.lock_items_region x).version.toNat,
    server.items_region x⟩

variable {server} {x y n : ℕ}

theorem cell_writeItem (v : ItemVersion) :
    (server.writeItem x v).cell x = { server.cell x with value := v } := by
  simp [cell, writeItem]

theorem cell_writeLock_free (h : n < 2 ^ 32) :
    (server.writeLock x (.set_lock 0 n)).cell x = ⟨false, n, (server.cell x).value⟩ := by
  simp only [cell, writeLock, Function.update_self, Lock.toNat_version h]
  rfl

theorem cell_writeLock_locked (h : n < 2 ^ 32) :
    (server.writeLock x (.set_lock 1 n)).cell x = ⟨true, n, (server.cell x).value⟩ := by
  simp only [cell, writeLock, Function.update_self, Lock.toNat_version h]
  rfl

theorem cell_writeItem_ne (h : y ≠ x) (v : ItemVersion) :
    (server.writeItem x v).cell y = server.cell y := by
  simp [cell, writeItem, h]

theorem cell_writeLock_ne (h : y ≠ x) (lock : Lock) :
    (server.writeLock x lock).cell y = server.cell y := by
  simp [cell, writeLock, h]

end Server

/-! ## Operations on a cell -/

section Served

variable {t : Trx} {k : ℕ} {line : ShoppingCartLine} {commit_timestamp : ℕ}
  {server server' : Server} {timestamp timestamp' : ℕ} {v : View} {g g' : Grip ItemVersion}
  {ctx' : Context} {es : List Event}

variable (h : Served t k line commit_timestamp server timestamp v g ctx' server' timestamp' es g')

include h

theorem Served.cell_ne
    {x : ℕ} (hx : x ≠ line.SCL_I_ID) : server'.cell x = server.cell x := by
  cases h with
  | acquire => exact Server.cell_writeLock_ne hx _
  | revert => exact Server.cell_writeLock_ne hx _
  | install => exact Server.cell_writeItem_ne hx _
  | release => exact Server.cell_writeLock_ne hx _
  | _ => rfl

/-- An operation on a queue pair is an operation on the cell of the cart line. -/
theorem Served.consistent {G : ℕ → Grip ItemVersion} {c : ℕ}
    (hG : Consistent ItemVersion.write_timestamp (server.cell line.SCL_I_ID) G) (hc : G c = g)
    (hitem : (server.items_region line.SCL_I_ID).write_timestamp < 2 ^ 32)
    (hstamp : v = .locking ∨ v = .writing ∨ v = .releasing →
      commit_timestamp < 2 ^ 32 ∧ g.Before ItemVersion.write_timestamp commit_timestamp) :
    Consistent ItemVersion.write_timestamp (server'.cell line.SCL_I_ID)
      (Function.update G c g') := by
  cases h with
  | readTimestamp =>
    rw [← hc, Function.update_eq_self]
    exact hG
  | fetchAdd =>
    rw [← hc, Function.update_eq_self]
    exact hG
  | read => exact hG.read
  | @acquire w view copy free =>
    have hcopy := hG.sound c
    rw [hc, copy] at hcopy
    have hw : w.write_timestamp < 2 ^ 32 := Nat.lt_of_le_of_lt hcopy.1 hitem
    rw [Server.cell_writeLock_locked (hstamp (.inl view)).1]
    refine hG.acquire (hc.trans copy) ?_ ?_
    · simp [Server.cell, free, Lock.set_lock]
    · simp only [Server.cell, free, Lock.toNat_version hw]
  | refuse => exact hG.forget
  | @revert w _ locked =>
    have hvalue := hG.value_eq (hc.trans locked)
    have hw : w.write_timestamp < 2 ^ 32 := hvalue ▸ hitem
    rw [Server.cell_writeLock_free hw]
    exact hG.revert (hc.trans locked)
  | @install w view locked =>
    have hbefore := (hstamp (.inr view)).2
    rw [locked] at hbefore
    rw [Server.cell_writeItem]
    exact hG.install (hc.trans locked) hbefore rfl
  | release view updated =>
    rw [Server.cell_writeLock_free (hstamp (.inr (.inr view))).1]
    exact hG.release (hc.trans updated)

theorem Served.timestamp_le : timestamp ≤ timestamp' := by
  cases h with
  | fetchAdd => exact Nat.le_succ timestamp
  | _ => exact Nat.le_refl timestamp

theorem Served.status
    (hstatus : ∀ x, (server.lock_items_region x).lock_status = 0 ∨
      (server.lock_items_region x).lock_status = 1) (x : ℕ) :
    (server'.lock_items_region x).lock_status = 0 ∨
      (server'.lock_items_region x).lock_status = 1 := by
  have hwrite (lock : Lock) (hlock : lock.lock_status = 0 ∨ lock.lock_status = 1) :
      ((server.writeLock line.SCL_I_ID lock).lock_items_region x).lock_status = 0 ∨
        ((server.writeLock line.SCL_I_ID lock).lock_items_region x).lock_status = 1 := by
    by_cases hx : x = line.SCL_I_ID
    · simp only [Server.writeLock, hx, Function.update_self]
      exact hlock
    · simp only [Server.writeLock, Function.update_of_ne hx]
      exact hstatus x
  cases h with
  | acquire => exact hwrite _ (.inr rfl)
  | revert => exact hwrite _ (.inl rfl)
  | release => exact hwrite _ (.inl rfl)
  | _ => exact hstatus x

/-- No version is newer than the oracle. -/
theorem Served.items_le
    (hitems : ∀ x, (server.items_region x).write_timestamp ≤ timestamp)
    (hstamp : v = .writing ∨ v = .releasing → commit_timestamp ≤ timestamp) (x : ℕ) :
    (server'.items_region x).write_timestamp ≤ timestamp' := by
  cases h with
  | fetchAdd => exact Nat.le_succ_of_le (hitems x)
  | install view =>
    by_cases hx : x = line.SCL_I_ID
    · simp only [Server.writeItem, hx, Function.update_self]
      exact hstamp view
    · simp only [Server.writeItem, Function.update_of_ne hx]
      exact hitems x
  | _ => exact hitems x

theorem Served.before {b : ℕ}
    (hread : v ≠ .reading) (hg : g.Before ItemVersion.write_timestamp b) :
    g'.Before ItemVersion.write_timestamp b := by
  cases h with
  | readTimestamp => exact hg
  | fetchAdd => exact hg
  | read view => exact absurd view hread
  | acquire _ copy =>
    rw [copy] at hg
    exact hg
  | _ => trivial

end Served

/-! ## The memory -/

/-- What the clients have of item `x` of server `i`, when `line c i` is the cart line of client `c`
for the server and `grip c i` what it has of the item of that line. -/
def gripOn (line : ℕ → ℕ → ShoppingCartLine) (grip : ℕ → ℕ → Grip ItemVersion) (i x c : ℕ) :
    Grip ItemVersion :=
  if (line c i).SCL_I_ID = x then grip c i else .none

section GripOn

variable {line line' : ℕ → ℕ → ShoppingCartLine} {grip : ℕ → ℕ → Grip ItemVersion} {c k i x : ℕ}
  {g : Grip ItemVersion}

theorem gripOn_self : gripOn line grip i (line c i).SCL_I_ID c = grip c i := if_pos rfl

theorem gripOn_update : gripOn line (Function.update grip c (Function.update (grip c) k g)) k
    (line c k).SCL_I_ID = Function.update (gripOn line grip k (line c k).SCL_I_ID) c g := by
  funext d
  by_cases hd : d = c
  · rw [hd, Function.update_self, gripOn_self, Function.update_self, Function.update_self]
  · rw [Function.update_of_ne hd, gripOn, gripOn, Function.update_of_ne hd]

theorem gripOn_update_ne (h : ¬(i = k ∧ x = (line c k).SCL_I_ID)) :
    gripOn line (Function.update grip c (Function.update (grip c) k g)) i x =
      gripOn line grip i x := by
  funext d
  unfold gripOn
  split
  · rename_i hx
    by_cases hd : d = c
    · subst hd
      have hi : i ≠ k := by
        rintro rfl
        exact h ⟨rfl, hx.symm⟩
      rw [Function.update_self, Function.update_of_ne hi]
    · rw [Function.update_of_ne hd]
  · rfl

/-- The cart of a client that has nothing of any item does not matter. -/
theorem gripOn_congr (hline : ∀ d i, line' d i = line d i ∨ grip d i = .none) :
    gripOn line' grip = gripOn line grip := by
  funext i x d
  unfold gripOn
  obtain h | h := hline d i
  · rw [h]
  · rw [h, ite_self, ite_self]

end GripOn

def State.line {cfg : Config} (s : State cfg) (c i : ℕ) : ShoppingCartLine := (s.clients c).line i

def State.served {cfg : Config} (s : State cfg) (c k : ℕ) (ctx' : Context) (server' : Server)
    (timestamp' : ℕ) (es : List Event) : State cfg :=
  { s.setClient c ((s.clients c).setCtx k ctx') with
    timestamp := timestamp'
    servers := Function.update s.servers k server'
    trace := s.trace ++ es }

theorem State.line_served {cfg : Config} (s : State cfg) {c k : ℕ} {ctx' : Context}
    {server' : Server} {timestamp' : ℕ} {es : List Event} :
    (s.served c k ctx' server' timestamp' es).line = s.line := by
  funext d i
  by_cases hd : d = c
  · subst hd
    simp only [State.line, State.served, State.setClient, Function.update_self]
    rfl
  · simp only [State.line, State.served, State.setClient, Function.update_of_ne hd]

/-- The invariant of the memory, with what every client has of the items of its cart. -/
structure MemoryOK {cfg : Config} (s : State cfg) (grip : ℕ → ℕ → Grip ItemVersion) : Prop where
  cell : ∀ i x, Consistent ItemVersion.write_timestamp ((s.servers i).cell x)
    (gripOn s.line grip i x)
  status : ∀ i x, ((s.servers i).lock_items_region x).lock_status = 0 ∨
    ((s.servers i).lock_items_region x).lock_status = 1
  timestamp : ∀ i x, ((s.servers i).items_region x).write_timestamp ≤ s.timestamp
  stamped : ∀ c b, (s.clients c).Stamped b → b ≤ s.timestamp ∧
    ∀ i, (grip c i).Before ItemVersion.write_timestamp b

namespace MemoryOK

variable {cfg : Config} {s s' : State cfg} {grip : ℕ → ℕ → Grip ItemVersion} {c : ℕ}

theorem of_servers (h : MemoryOK s grip) (hservers : s'.servers = s.servers)
    (htimestamp : s'.timestamp = s.timestamp)
    (hline : ∀ d i, s'.line d i = s.line d i ∨ grip d i = .none)
    (hstamped : ∀ d b, (s'.clients d).Stamped b → (s.clients d).Stamped b) :
    MemoryOK s' grip where
  cell := by
    rw [hservers, gripOn_congr hline]
    exact h.cell
  status := by
    rw [hservers]
    exact h.status
  timestamp := by
    rw [hservers, htimestamp]
    exact h.timestamp
  stamped d b hb := by
    rw [htimestamp]
    exact h.stamped d b (hstamped d b hb)

theorem commit_timestamp_le (h : MemoryOK s grip) {k : ℕ}
    (hv : (s.clients c).view k = .locking ∨ (s.clients c).view k = .writing ∨
      (s.clients c).view k = .releasing) :
    (s.clients c).commit_timestamp ≤ s.timestamp ∧
      (grip c k).Before ItemVersion.write_timestamp (s.clients c).commit_timestamp := by
  have hstamped : (s.clients c).Stamped (s.clients c).commit_timestamp := by
    obtain hv | hv := hv
    · have hv : (s.clients c).view k = Phase.during .lock := hv
      rw [Client.stamped_iff_of_during hv]
      exact ⟨by simp, rfl⟩
    · exact Client.stamped_of_committing (Client.committing_of_view hv)
  obtain ⟨hle, hbefore⟩ := h.stamped c _ hstamped
  exact ⟨hle, hbefore k⟩

section Serve

variable {k timestamp' : ℕ} {ctx' : Context} {server' : Server} {es : List Event}
  {g' : Grip ItemVersion}

theorem stamped_serve (h : MemoryOK s grip)
    (hserved : Served ⟨c, (s.clients c).trx_num⟩ k (s.line c k) (s.clients c).commit_timestamp
      (s.servers k) s.timestamp ((s.clients c).view k) (grip c k) ctx' server' timestamp' es g')
    {b : ℕ} (hb : ((s.clients c).setCtx k ctx').Stamped b) :
    b ≤ timestamp' ∧
      ∀ i, (Function.update (grip c) k g' i).Before ItemVersion.write_timestamp b := by
  have hsplit (hbefore : ∀ i, (grip c i).Before ItemVersion.write_timestamp b)
      (hread : (s.clients c).view k ≠ .reading) (i : ℕ) :
      (Function.update (grip c) k g' i).Before ItemVersion.write_timestamp b := by
    by_cases hi : i = k
    · rw [hi, Function.update_self]
      exact hserved.before hread (hbefore k)
    · rw [Function.update_of_ne hi]
      exact hbefore i
  obtain hold | ⟨htimestamp, rfl⟩ := hserved.stamped hb
  · obtain ⟨hle, hbefore⟩ := h.stamped c b hold
    refine ⟨Nat.le_trans hle hserved.timestamp_le, hsplit hbefore ?_⟩
    intro hview
    have hview : (s.clients c).view k = Phase.during .item := hview
    exact ((Client.stamped_iff_of_during hview).1 hold).1 rfl
  · refine ⟨Nat.le_of_eq htimestamp.symm, hsplit ?_ ?_⟩
    · -- whatever the client has a copy of is at most as old as the item, and so than the oracle
      intro i
      have hsound := (h.cell i (s.line c i).SCL_I_ID).sound c
      rw [gripOn_self] at hsound
      exact hsound.before (Nat.lt_succ_of_le (h.timestamp i _))
    · intro hview
      rw [hview] at hserved
      cases hserved with
      | fetchAdd view => cases view
      | _ => omega

theorem serve (h : MemoryOK s grip)
    (hserved : Served ⟨c, (s.clients c).trx_num⟩ k (s.line c k) (s.clients c).commit_timestamp
      (s.servers k) s.timestamp ((s.clients c).view k) (grip c k) ctx' server' timestamp' es g')
    (hlt : timestamp' < 2 ^ 32) :
    MemoryOK (s.served c k ctx' server' timestamp' es)
      (Function.update grip c (Function.update (grip c) k g')) := by
  have hle := hserved.timestamp_le
  refine ⟨fun i x => ?_, fun i x => ?_, fun i x => ?_, fun d b hb => ?_⟩
  · rw [State.line_served]
    by_cases hix : i = k ∧ x = (s.line c k).SCL_I_ID
    · obtain ⟨rfl, rfl⟩ := hix
      rw [gripOn_update]
      simp only [State.served, Function.update_self]
      refine hserved.consistent (h.cell i _) gripOn_self ?_ fun hv => ?_
      · exact Nat.lt_of_le_of_lt (h.timestamp i _) (Nat.lt_of_le_of_lt hle hlt)
      · obtain ⟨hts, hbefore⟩ := h.commit_timestamp_le hv
        exact ⟨by omega, hbefore⟩
    · rw [gripOn_update_ne hix]
      by_cases hi : i = k
      · subst hi
        simp only [State.served, Function.update_self]
        rw [hserved.cell_ne fun hx => hix ⟨rfl, hx⟩]
        exact h.cell i x
      · simp only [State.served, Function.update_of_ne hi]
        exact h.cell i x
  · by_cases hi : i = k
    · subst hi
      simp only [State.served, Function.update_self]
      exact hserved.status (h.status i) x
    · simp only [State.served, Function.update_of_ne hi]
      exact h.status i x
  · by_cases hi : i = k
    · subst hi
      simp only [State.served, Function.update_self]
      exact hserved.items_le (h.timestamp i) (fun hv => (h.commit_timestamp_le (.inr hv)).1) x
    · simp only [State.served, Function.update_of_ne hi]
      exact Nat.le_trans (h.timestamp i x) hle
  · by_cases hd : d = c
    · subst hd
      simp only [State.served, State.setClient, Function.update_self] at hb ⊢
      exact h.stamped_serve hserved hb
    · simp only [State.served, State.setClient, Function.update_of_ne hd] at hb ⊢
      obtain ⟨hbound, hbefore⟩ := h.stamped d b hb
      exact ⟨Nat.le_trans hbound hle, hbefore⟩

end Serve

end MemoryOK

end RdmaSnapshot.TPCW.RSI
