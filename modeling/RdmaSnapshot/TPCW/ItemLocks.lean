import RdmaSnapshot.Lib.VersionLock
import RdmaSnapshot.TPCW.RSI

/-!
# One connection of the RSI client

What is under way between a client and one server, by where the client is in its transaction, and
what the client has of the item it buys there: a copy, the lock, or the lock of an item it has
updated. Only the operations on the queue pair change the latter; the client itself only posts
requests and looks at results.
-/

namespace RdmaSnapshot.TPCW.RSI

open VersionLock

/-! ## Where a client is -/

/-- How far a client is, in its current transaction, with one server. -/
inductive View
  | idle
  /-- Waits for the read timestamp. -/
  | oracle
  /-- Has posted the read of the item. -/
  | reading
  /-- Has got the item. -/
  | fetched
  /-- Has got the item and waits for the commit timestamp. -/
  | stamping
  | locking
  /-- Has looked at the result of the compare-and-swap. -/
  | checked
  | reverting
  /-- Has posted the new version. -/
  | writing
  | releasing
  deriving DecidableEq

namespace Phase

/-- How far a client is with the servers to which it has not posted the request of the phase. -/
def before : Phase → View
  | .item => .idle
  | .lock => .fetched
  | .revert => .checked
  | .release => .writing

def during : Phase → View
  | .item => .reading
  | .lock => .locking
  | .revert => .reverting
  | .release => .releasing

/-- How far a client is with the servers whose completion of the phase it has polled. -/
def after : Phase → View
  | .item => .fetched
  | .lock => .checked
  | .revert => .idle
  | .release => .idle

end Phase

def PC.view (i : ℕ) : PC → View
  | .loop => .idle
  | .readTimestamp => if i = 0 then .oracle else .idle
  | .post φ j => if i < j then φ.during else φ.before
  | .poll φ j => if i < j then φ.after else φ.during
  | .commitTimestamp => if i = 0 then .stamping else .fetched
  | .decrement j => if i < j then .writing else .checked

namespace Client

variable {cfg : Config} (cl : Client cfg)

/-- How far the client is with server `i`; nothing is bought from servers after the last line. -/
def view (i : ℕ) : View := if i < cfg.ORDERLINE_PER_ORDER then cl.pc.view i else .idle

/-- The client has committed its transaction and not finished it. -/
def Committing : Prop :=
  match cl.pc with
  | .decrement _ => True
  | .post φ _ => φ = .release
  | .poll φ _ => φ = .release
  | _ => False

/-- The commit timestamp of the transaction, from when it is drawn. -/
def Stamped (b : ℕ) : Prop :=
  match cl.pc with
  | .commitTimestamp => 0 < (cl.ctx 0).completions ∧ b = (cl.ctx 0).commit_ts_region + 1
  | .post φ _ => φ ≠ .item ∧ b = cl.commit_timestamp
  | .poll φ _ => φ ≠ .item ∧ b = cl.commit_timestamp
  | .decrement _ => b = cl.commit_timestamp
  | _ => False

/-- While the abort flag is not raised, all locks looked at were acquired. -/
def Won : Prop :=
  match cl.pc with
  | .poll .lock j => cl.abort_flag = false → ∀ i < j, (cl.ctx i).successful_locking_servers = true
  | .decrement _ => ∀ i < cfg.ORDERLINE_PER_ORDER, (cl.ctx i).successful_locking_servers = true
  | _ => True

@[simp] theorem server_num_eq (i : ℕ) : cl.server_num i = i := cl.cart.server_num i

variable {cl} {i : ℕ}

theorem lt_of_view (h : cl.view i ≠ .idle) : i < cfg.ORDERLINE_PER_ORDER := by
  by_contra hi
  exact h (if_neg hi)

theorem pc_view (h : cl.view i ≠ .idle) : cl.pc.view i = cl.view i :=
  (if_pos (lt_of_view h)).symm

end Client

/-! ## What is under way -/

/-- What is under way on the connection to the server of a cart line, and what the client has of
the item, by how far it is. -/
inductive Stage (line : ShoppingCartLine) (commit_timestamp : ℕ) (ctx : Context) :
    View → Grip ItemVersion → Prop
  | idle (queue : ctx.queue = []) (completions : ctx.completions = 0) :
      Stage line commit_timestamp ctx .idle .none
  | oracle (queue : ctx.queue = [.readTimestamp]) (completions : ctx.completions = 0) :
      Stage line commit_timestamp ctx .oracle .none
  | oracleDone (queue : ctx.queue = []) (completions : ctx.completions = 1) :
      Stage line commit_timestamp ctx .oracle .none
  | reading (queue : ctx.queue = [.readItem line.SCL_I_ID]) (completions : ctx.completions = 0) :
      Stage line commit_timestamp ctx .reading .none
  | readingDone (queue : ctx.queue = []) (completions : ctx.completions = 1) :
      Stage line commit_timestamp ctx .reading (.copy ctx.items_region)
  | fetched (queue : ctx.queue = []) (completions : ctx.completions = 0) :
      Stage line commit_timestamp ctx .fetched (.copy ctx.items_region)
  | stamping (queue : ctx.queue = [.fetchAdd]) (completions : ctx.completions = 0) :
      Stage line commit_timestamp ctx .stamping (.copy ctx.items_region)
  | stampingDone (queue : ctx.queue = []) (completions : ctx.completions = 1) :
      Stage line commit_timestamp ctx .stamping (.copy ctx.items_region)
  | locking (queue : ctx.queue = [.cmpSwap line.SCL_I_ID ctx.expected_lock
        (.set_lock 1 commit_timestamp)]) (completions : ctx.completions = 0)
      (expected : ctx.expected_lock = .set_lock 0 ctx.items_region.write_timestamp) :
      Stage line commit_timestamp ctx .locking (.copy ctx.items_region)
  | acquired (queue : ctx.queue = []) (completions : ctx.completions = 1)
      (expected : ctx.expected_lock = .set_lock 0 ctx.items_region.write_timestamp)
      (result : ctx.lock_items_region = ctx.expected_lock) :
      Stage line commit_timestamp ctx .locking (.locked ctx.items_region commit_timestamp)
  | refused (queue : ctx.queue = []) (completions : ctx.completions = 1)
      (result : ctx.lock_items_region ≠ ctx.expected_lock) :
      Stage line commit_timestamp ctx .locking .none
  | won (queue : ctx.queue = []) (completions : ctx.completions = 0)
      (expected : ctx.expected_lock = .set_lock 0 ctx.items_region.write_timestamp)
      (successful : ctx.successful_locking_servers = true) :
      Stage line commit_timestamp ctx .checked (.locked ctx.items_region commit_timestamp)
  | lost (queue : ctx.queue = []) (completions : ctx.completions = 0)
      (successful : ctx.successful_locking_servers = false) :
      Stage line commit_timestamp ctx .checked .none
  | reverting (queue : ctx.queue = [.writeLock line.SCL_I_ID
        (.set_lock 0 ctx.items_region.write_timestamp)]) (completions : ctx.completions = 0)
      (successful : ctx.successful_locking_servers = true) :
      Stage line commit_timestamp ctx .reverting (.locked ctx.items_region commit_timestamp)
  | revertingDone (queue : ctx.queue = []) (completions : ctx.completions = 1)
      (successful : ctx.successful_locking_servers = true) :
      Stage line commit_timestamp ctx .reverting .none
  | revertingNothing (queue : ctx.queue = []) (completions : ctx.completions = 0)
      (successful : ctx.successful_locking_servers = false) :
      Stage line commit_timestamp ctx .reverting .none
  | writing {v : ItemVersion} (queue : ctx.queue = [.writeItem line.SCL_I_ID
        (v.decrement line.SCL_QTY commit_timestamp) v]) (completions : ctx.completions = 0) :
      Stage line commit_timestamp ctx .writing (.locked v commit_timestamp)
  | written {v : ItemVersion} (queue : ctx.queue = []) (completions : ctx.completions = 0) :
      Stage line commit_timestamp ctx .writing (.updated v commit_timestamp)
  | releasingBoth {v : ItemVersion} (queue : ctx.queue = [.writeItem line.SCL_I_ID
        (v.decrement line.SCL_QTY commit_timestamp) v,
        .writeLock line.SCL_I_ID (.set_lock 0 commit_timestamp)])
      (completions : ctx.completions = 0) :
      Stage line commit_timestamp ctx .releasing (.locked v commit_timestamp)
  | releasing {v : ItemVersion} (queue : ctx.queue = [.writeLock line.SCL_I_ID
        (.set_lock 0 commit_timestamp)]) (completions : ctx.completions = 0) :
      Stage line commit_timestamp ctx .releasing (.updated v commit_timestamp)
  | releasingDone (queue : ctx.queue = []) (completions : ctx.completions = 1) :
      Stage line commit_timestamp ctx .releasing .none

/-- What an operation on the queue pair to server `k` does to the server, the oracle, the trace and
to what the client has of the item. -/
inductive Served (t : Trx) (k : ℕ) (line : ShoppingCartLine) (commit_timestamp : ℕ)
    (server : Server) (timestamp : ℕ) (v : View) (g : Grip ItemVersion) (ctx' : Context) :
    Server → ℕ → List Event → Grip ItemVersion → Prop
  | readTimestamp (view : v = .oracle) :
      Served t k line commit_timestamp server timestamp v g ctx' server timestamp [] g
  | fetchAdd (view : v = .stamping) (region : ctx'.commit_ts_region = timestamp) :
      Served t k line commit_timestamp server timestamp v g ctx' server (timestamp + 1) [] g
  | read (view : v = .reading) (nothing : g = .none) :
      Served t k line commit_timestamp server timestamp v g ctx' server timestamp []
        (.copy (server.items_region line.SCL_I_ID))
  | acquire {w : ItemVersion} (view : v = .locking) (copy : g = .copy w)
      (free : server.lock_items_region line.SCL_I_ID = .set_lock 0 w.write_timestamp) :
      Served t k line commit_timestamp server timestamp v g ctx'
        (server.writeLock line.SCL_I_ID (.set_lock 1 commit_timestamp)) timestamp
        [.locked t k line.SCL_I_ID (.set_lock 0 w.write_timestamp) (.set_lock 1 commit_timestamp)]
        (.locked w commit_timestamp)
  | refuse {w : ItemVersion} (view : v = .locking) (copy : g = .copy w) :
      Served t k line commit_timestamp server timestamp v g ctx' server timestamp [] .none
  | revert {w : ItemVersion} (view : v = .reverting) (locked : g = .locked w commit_timestamp) :
      Served t k line commit_timestamp server timestamp v g ctx'
        (server.writeLock line.SCL_I_ID (.set_lock 0 w.write_timestamp)) timestamp
        [.unlocked t k line.SCL_I_ID (server.lock_items_region line.SCL_I_ID)
          (.set_lock 0 w.write_timestamp)] .none
  | install {w : ItemVersion} (view : v = .writing ∨ v = .releasing)
      (locked : g = .locked w commit_timestamp) :
      Served t k line commit_timestamp server timestamp v g ctx'
        (server.writeItem line.SCL_I_ID (w.decrement line.SCL_QTY commit_timestamp)) timestamp
        [.installed t k line.SCL_I_ID w (server.items_region line.SCL_I_ID)
          (w.decrement line.SCL_QTY commit_timestamp)]
        (.updated (w.decrement line.SCL_QTY commit_timestamp) commit_timestamp)
  | release {w : ItemVersion} (view : v = .releasing) (updated : g = .updated w commit_timestamp) :
      Served t k line commit_timestamp server timestamp v g ctx'
        (server.writeLock line.SCL_I_ID (.set_lock 0 commit_timestamp)) timestamp
        [.unlocked t k line.SCL_I_ID (server.lock_items_region line.SCL_I_ID)
          (.set_lock 0 commit_timestamp)] .none

namespace Stage

variable {line : ShoppingCartLine} {commit_timestamp : ℕ} {ctx ctx' : Context} {v : View}
  {g : Grip ItemVersion} {t : Trx} {k : ℕ} {server server' : Server} {timestamp timestamp' : ℕ}
  {es : List Event}

/-- An operation on the queue pair leaves the connection in a stage of the same view. -/
theorem serve (h : Stage line commit_timestamp ctx v g)
    (hserve : ctx.serve t k server timestamp = some (ctx', server', timestamp', es)) :
    ∃ g', Served t k line commit_timestamp server timestamp v g ctx' server' timestamp' es g' ∧
      Stage line commit_timestamp ctx' v g' := by
  cases h with
  | oracle queue completions =>
    simp only [Context.serve, queue] at hserve
    cases hserve
    exact ⟨_, .readTimestamp rfl, .oracleDone rfl (congrArg (· + 1) completions)⟩
  | reading queue completions =>
    simp only [Context.serve, queue] at hserve
    cases hserve
    exact ⟨_, .read rfl rfl, .readingDone rfl (congrArg (· + 1) completions)⟩
  | stamping queue completions =>
    simp only [Context.serve, queue] at hserve
    cases hserve
    exact ⟨_, .fetchAdd rfl rfl, .stampingDone rfl (congrArg (· + 1) completions)⟩
  | locking queue completions expected =>
    simp only [Context.serve, queue] at hserve
    split at hserve <;> cases hserve
    · rename_i hold
      rw [hold, expected]
      refine ⟨_, .acquire rfl rfl (hold.trans expected), ?_⟩
      exact .acquired rfl (congrArg (· + 1) completions) expected expected.symm
    · rename_i hold
      exact ⟨_, .refuse rfl rfl, .refused rfl (congrArg (· + 1) completions) hold⟩
  | reverting queue completions successful =>
    simp only [Context.serve, queue] at hserve
    cases hserve
    exact ⟨_, .revert rfl rfl, .revertingDone rfl (congrArg (· + 1) completions) successful⟩
  | writing queue completions =>
    simp only [Context.serve, queue] at hserve
    cases hserve
    exact ⟨_, .install (.inl rfl) rfl, .written rfl completions⟩
  | releasingBoth queue completions =>
    simp only [Context.serve, queue] at hserve
    cases hserve
    exact ⟨_, .install (.inr rfl) rfl, .releasing rfl completions⟩
  | releasing queue completions =>
    simp only [Context.serve, queue] at hserve
    cases hserve
    exact ⟨_, .release rfl rfl, .releasingDone rfl (congrArg (· + 1) completions)⟩
  | _ queue => simp [Context.serve, queue] at hserve

theorem issue {φ : Phase} (h : Stage line commit_timestamp ctx φ.before g) :
    Stage line commit_timestamp (ctx.issue line commit_timestamp φ) φ.during g := by
  cases φ with
  | item =>
    cases h with
    | idle queue completions => exact .reading (congrArg (· ++ _) queue) completions
  | lock =>
    cases h with
    | fetched queue completions => exact .locking (congrArg (· ++ _) queue) completions rfl
  | revert =>
    cases h with
    | won queue completions expected successful =>
      simp only [Context.issue, successful, if_true]
      refine .reverting ?_ completions successful
      show ctx.queue ++ [.writeLock _ ctx.expected_lock] = _
      rw [queue, expected]
      rfl
    | lost queue completions successful =>
      simp only [Context.issue, successful, Bool.false_eq_true, if_false]
      exact .revertingNothing queue completions successful
  | release =>
    cases h with
    | writing queue completions => exact .releasingBoth (congrArg (· ++ _) queue) completions
    | written queue completions => exact .releasing (congrArg (· ++ _) queue) completions

theorem poll_completion (h : ctx.poll_completion = some ctx') :
    0 < ctx.completions ∧ ctx' = { ctx with completions := ctx.completions - 1 } := by
  obtain ⟨hpos, hctx⟩ := Option.ite_none_right_eq_some.1 h
  exact ⟨hpos, (Option.some.inj hctx).symm⟩

theorem await {φ : Phase} (h : Stage line commit_timestamp ctx φ.during g)
    (hawait : ctx.await φ = some ctx') : Stage line commit_timestamp ctx' φ.after g := by
  cases φ with
  | item =>
    obtain ⟨hpos, rfl⟩ := poll_completion hawait
    cases h with
    | reading _ completions => omega
    | readingDone queue completions => exact .fetched queue (by simp [completions])
  | lock =>
    obtain ⟨_, hpoll, rfl⟩ := Option.map_eq_some_iff.1 hawait
    obtain ⟨hpos, rfl⟩ := poll_completion hpoll
    cases h with
    | locking _ completions _ => omega
    | acquired queue completions expected result =>
      exact .won queue (by simp [completions]) expected (decide_eq_true result)
    | refused queue completions result =>
      exact .lost queue (by simp [completions]) (decide_eq_false result)
  | revert =>
    cases h with
    | reverting _ completions successful =>
      simp only [Context.await, successful, if_true] at hawait
      obtain ⟨hpos, rfl⟩ := poll_completion hawait
      omega
    | revertingDone queue completions successful =>
      simp only [Context.await, successful, if_true] at hawait
      obtain ⟨-, rfl⟩ := poll_completion hawait
      exact .idle queue (by simp [completions])
    | revertingNothing queue completions successful =>
      simp only [Context.await, successful, Bool.false_eq_true, if_false,
        Option.some.injEq] at hawait
      rw [← hawait]
      exact .idle queue completions
  | release =>
    obtain ⟨hpos, rfl⟩ := poll_completion hawait
    cases h with
    | releasingBoth _ completions => omega
    | releasing _ completions => omega
    | releasingDone queue completions => exact .idle queue (by simp [completions])

theorem decrement (h : Stage line commit_timestamp ctx .checked g)
    (hwon : ctx.successful_locking_servers = true) :
    Stage line commit_timestamp (ctx.decrement_item_stock line commit_timestamp) .writing g := by
  cases h with
  | won queue completions _ _ => exact .writing (congrArg (· ++ _) queue) completions
  | lost _ _ successful =>
    rw [hwon] at successful
    cases successful

theorem readTimestamp (h : Stage line commit_timestamp ctx .oracle g)
    (hpoll : ctx.poll_completion = some ctx') :
    Stage line commit_timestamp ctx' (Phase.before .item) g := by
  obtain ⟨hpos, rfl⟩ := poll_completion hpoll
  cases h with
  | oracle _ completions => omega
  | oracleDone queue completions => exact .idle queue (by simp [completions])

theorem fetchAdd (h : Stage line commit_timestamp ctx (Phase.after .item) g) :
    Stage line commit_timestamp (ctx.post .fetchAdd) .stamping g := by
  cases h with
  | fetched queue completions => exact .stamping (congrArg (· ++ _) queue) completions

theorem commitTimestamp {ts ts' : ℕ} (h : Stage line ts ctx .stamping g)
    (hpoll : ctx.poll_completion = some ctx') :
    Stage line ts' { ctx' with commit_ts_region := ctx'.commit_ts_region + 1 }
      (Phase.before .lock) g := by
  obtain ⟨hpos, rfl⟩ := poll_completion hpoll
  cases h with
  | stamping _ completions => omega
  | stampingDone queue completions => exact .fetched queue (by simp [completions])

/-- Before the locks are asked for, the commit timestamp does not matter. -/
theorem of_fetched {ts ts' : ℕ} (h : Stage line ts ctx v g) (hv : v = .fetched ∨ v = .idle) :
    Stage line ts' ctx v g := by
  obtain rfl | rfl := hv
  · cases h with
    | fetched queue completions => exact .fetched queue completions
  · cases h with
    | idle queue completions => exact .idle queue completions

end Stage

/-! ## Clients -/

/-- What an operation of client `c` does. -/
inductive Moves {cfg : Config} (c : ℕ) (cl : Client cfg) : Client cfg → List Event → Prop
  | readTimestamp {ctx : Context} (pc : cl.pc = .readTimestamp)
      (poll : (cl.ctx 0).poll_completion = some ctx) :
      Moves c cl { cl.setCtx 0 ctx with
        pc := .post .item 0
        read_timestamp := ctx.read_ts_region } []
  | post {φ : Phase} {i : ℕ} (pc : cl.pc = .post φ i) (lt : i < cfg.ORDERLINE_PER_ORDER) :
      Moves c cl { cl.setCtx i ((cl.ctx i).issue (cl.line i) cl.commit_timestamp φ) with
        pc := .post φ (i + 1) } []
  | posted {φ : Phase} {i : ℕ} (pc : cl.pc = .post φ i) (le : cfg.ORDERLINE_PER_ORDER ≤ i) :
      Moves c cl { cl with
        pc := .poll φ 0
        abort_flag := if φ = .lock then false else cl.abort_flag } []
  | poll {φ : Phase} {i : ℕ} {ctx : Context} (pc : cl.pc = .poll φ i)
      (lt : i < cfg.ORDERLINE_PER_ORDER) (await : (cl.ctx i).await φ = some ctx) :
      Moves c cl { cl.setCtx i ctx with
        pc := .poll φ (i + 1)
        abort_flag :=
          if φ = .lock then cl.abort_flag || !ctx.successful_locking_servers
          else cl.abort_flag } []
  | fetched {i : ℕ} (pc : cl.pc = .poll .item i) (le : cfg.ORDERLINE_PER_ORDER ≤ i) :
      Moves c cl { cl.setCtx 0 ((cl.ctx 0).post .fetchAdd) with pc := .commitTimestamp } []
  | commitTimestamp {ctx : Context} (pc : cl.pc = .commitTimestamp)
      (poll : (cl.ctx 0).poll_completion = some ctx) :
      Moves c cl { cl.setCtx 0 { ctx with commit_ts_region := ctx.commit_ts_region + 1 } with
        pc := .post .lock 0
        commit_timestamp := ctx.commit_ts_region + 1 } []
  | fail {i : ℕ} (pc : cl.pc = .poll .lock i) (le : cfg.ORDERLINE_PER_ORDER ≤ i) :
      Moves c cl { cl with pc := .post .revert 0 } []
  | abort {i : ℕ} (pc : cl.pc = .poll .revert i) (le : cfg.ORDERLINE_PER_ORDER ≤ i) :
      Moves c cl { cl with pc := .loop } [.aborted ⟨c, cl.trx_num⟩]
  | commit {i : ℕ} (pc : cl.pc = .poll .lock i) (le : cfg.ORDERLINE_PER_ORDER ≤ i)
      (flag : cl.abort_flag = false) :
      Moves c cl { cl with pc := .decrement 0 } [.committed ⟨c, cl.trx_num⟩ cl.lines]
  | decrement {i : ℕ} (pc : cl.pc = .decrement i) (lt : i < cfg.ORDERLINE_PER_ORDER) :
      Moves c cl
        { cl.setCtx i ((cl.ctx i).decrement_item_stock (cl.line i) cl.commit_timestamp) with
          pc := .decrement (i + 1) } []
  | decremented {i : ℕ} (pc : cl.pc = .decrement i) (le : cfg.ORDERLINE_PER_ORDER ≤ i) :
      Moves c cl { cl with pc := .post .release 0 } []
  | finish {i : ℕ} (pc : cl.pc = .poll .release i) (le : cfg.ORDERLINE_PER_ORDER ≤ i) :
      Moves c cl { cl with pc := .loop } []

/-- A client, with what it has of the items of its cart. -/
structure ClientOK {cfg : Config} (cl : Client cfg) (grip : ℕ → Grip ItemVersion) : Prop where
  stage : ∀ i, Stage (cl.line i) cl.commit_timestamp (cl.ctx i) (cl.view i) (grip i)
  won : cl.Won

section Client

variable {cfg : Config} {c : ℕ} {cl cl' : Client cfg} {es : List Event}
  {grip : ℕ → Grip ItemVersion}

theorem Client.next_moves (h : cl.next c = some (cl', es)) : Moves c cl cl' es := by
  cases hpc : cl.pc with
  | loop => simp [Client.next, hpc] at h
  | readTimestamp =>
    simp only [Client.next, hpc, Option.map_eq_some_iff, Prod.mk.injEq] at h
    obtain ⟨ctx, hpoll, rfl, rfl⟩ := h
    exact .readTimestamp hpc hpoll
  | post φ i =>
    simp only [Client.next, hpc, Client.server_num_eq] at h
    split at h <;> cases h
    · exact .post hpc ‹_›
    · exact .posted hpc (by omega)
  | poll φ i =>
    simp only [Client.next, hpc, Client.server_num_eq] at h
    split at h
    · simp only [Option.map_eq_some_iff, Prod.mk.injEq] at h
      obtain ⟨ctx, hawait, rfl, rfl⟩ := h
      exact .poll hpc ‹_› hawait
    · have hi : cfg.ORDERLINE_PER_ORDER ≤ i := by omega
      cases φ with
      | item =>
        cases h
        exact .fetched hpc hi
      | lock =>
        simp only at h
        split at h <;> cases h
        · exact .fail hpc hi
        · exact .commit hpc hi (by simpa using ‹¬cl.abort_flag = true›)
      | revert =>
        cases h
        exact .abort hpc hi
      | release =>
        cases h
        exact .finish hpc hi
  | commitTimestamp =>
    simp only [Client.next, hpc, Option.map_eq_some_iff, Prod.mk.injEq] at h
    obtain ⟨ctx, hpoll, rfl, rfl⟩ := h
    exact .commitTimestamp hpc hpoll
  | decrement i =>
    simp only [Client.next, hpc, Client.server_num_eq] at h
    split at h <;> cases h
    · exact .decrement hpc ‹_›
    · exact .decremented hpc (by omega)

theorem ClientOK.stage_move (h : ClientOK cl grip) (pc' : PC)
    (hview : ∀ i < cfg.ORDERLINE_PER_ORDER, pc'.view i = cl.pc.view i) (i : ℕ) :
    Stage (cl.line i) cl.commit_timestamp (cl.ctx i) ({ cl with pc := pc' }.view i) (grip i) := by
  have heq : { cl with pc := pc' }.view i = cl.view i := by
    unfold Client.view
    split
    · exact hview i ‹_›
    · rfl
  rw [heq]
  exact h.stage i

theorem ClientOK.stage_setCtx (h : ClientOK cl grip) (pc' : PC) {k : ℕ} {ctx : Context}
    (hk : k < cfg.ORDERLINE_PER_ORDER)
    (hview : ∀ i ≠ k, i < cfg.ORDERLINE_PER_ORDER → pc'.view i = cl.pc.view i)
    (hstage : Stage (cl.line k) cl.commit_timestamp (cl.ctx k) (cl.pc.view k) (grip k) →
      Stage (cl.line k) cl.commit_timestamp ctx (pc'.view k) (grip k)) (i : ℕ) :
    Stage (cl.line i) cl.commit_timestamp (Function.update cl.ctx k ctx i)
      ({ cl with pc := pc' }.view i) (grip i) := by
  have hclient := h.stage i
  unfold Client.view at hclient ⊢
  by_cases hi : i = k
  · subst hi
    rw [if_pos hk] at hclient
    rw [Function.update_self, if_pos hk]
    exact hstage hclient
  · rw [Function.update_of_ne hi]
    split
    · rw [hview i hi ‹_›]
      rwa [if_pos ‹_›] at hclient
    · rwa [if_neg ‹_›] at hclient

theorem ClientOK.stage_moves (h : ClientOK cl grip) (hmove : Moves c cl cl' es) (i : ℕ) :
    Stage (cl'.line i) cl'.commit_timestamp (cl'.ctx i) (cl'.view i) (grip i) := by
  have hpos := cfg.orderline_pos
  cases hmove with
  | @readTimestamp ctx pc poll =>
    refine h.stage_setCtx (.post .item 0) hpos ?_ ?_ i
    · intro j hj _
      simp [PC.view, Phase.before, pc, hj]
    · simp only [PC.view, pc, if_true]
      exact fun hstage => hstage.readTimestamp poll
  | @post φ k pc lt =>
    refine h.stage_setCtx (.post φ (k + 1)) lt ?_ ?_ i
    · intro j hj _
      simp [PC.view, pc, show j < k + 1 ↔ j < k by omega]
    · simp only [PC.view, pc, Nat.lt_irrefl, if_false, Nat.lt_succ_self, if_true]
      exact Stage.issue
  | @posted φ k pc le =>
    refine h.stage_move (.poll φ 0) ?_ i
    intro j hj
    simp [PC.view, pc, show j < k by omega]
  | @poll φ k ctx pc lt await =>
    refine h.stage_setCtx (.poll φ (k + 1)) lt ?_ ?_ i
    · intro j hj _
      simp [PC.view, pc, show j < k + 1 ↔ j < k by omega]
    · simp only [PC.view, pc, Nat.lt_irrefl, if_false, Nat.lt_succ_self, if_true]
      exact fun hstage => hstage.await await
  | @fetched k pc le =>
    refine h.stage_setCtx .commitTimestamp hpos ?_ ?_ i
    · intro j hj hlt
      simp [PC.view, Phase.after, pc, hj, show j < k by omega]
    · simp only [PC.view, pc, if_true, show 0 < k by omega]
      exact Stage.fetchAdd
  | @commitTimestamp ctx pc poll =>
    have hstage := h.stage i
    by_cases hi : i = 0
    · subst hi
      simp only [Client.view, PC.view, pc, hpos, if_true] at hstage
      simp only [Client.view, PC.view, hpos, if_true, Nat.lt_irrefl, if_false,
        Client.setCtx, Function.update_self]
      exact hstage.commitTimestamp poll
    · simp only [Client.view, PC.view, pc, hi, if_false] at hstage
      simp only [Client.view, PC.view, Phase.before, Nat.not_lt_zero, if_false, Client.setCtx,
        Function.update_of_ne hi]
      exact hstage.of_fetched (by split <;> simp)
  | @fail k pc le =>
    refine h.stage_move (.post .revert 0) ?_ i
    intro j hj
    simp [PC.view, Phase.before, Phase.after, pc, show j < k by omega]
  | @abort k pc le =>
    refine h.stage_move .loop ?_ i
    intro j hj
    simp [PC.view, Phase.after, pc, show j < k by omega]
  | @commit k pc le flag =>
    refine h.stage_move (.decrement 0) ?_ i
    intro j hj
    simp [PC.view, Phase.after, pc, show j < k by omega]
  | @decrement k pc lt =>
    have hwon := h.won
    simp only [Client.Won, pc] at hwon
    refine h.stage_setCtx (.decrement (k + 1)) lt ?_ ?_ i
    · intro j hj _
      simp [PC.view, pc, show j < k + 1 ↔ j < k by omega]
    · simp only [PC.view, pc, Nat.lt_irrefl, if_false, Nat.lt_succ_self, if_true]
      exact fun hstage => hstage.decrement (hwon k lt)
  | @decremented k pc le =>
    refine h.stage_move (.post .release 0) ?_ i
    intro j hj
    simp [PC.view, Phase.before, pc, show j < k by omega]
  | @finish k pc le =>
    refine h.stage_move .loop ?_ i
    intro j hj
    simp [PC.view, Phase.after, pc, show j < k by omega]

theorem ClientOK.won_moves (h : ClientOK cl grip) (hmove : Moves c cl cl' es) : cl'.Won := by
  have hwon := h.won
  cases hmove with
  | @posted φ k pc le =>
    cases φ with
    | lock => exact fun _ j hj => absurd hj (Nat.not_lt_zero j)
    | _ => trivial
  | @poll φ k ctx pc lt await =>
    cases φ with
    | lock =>
      simp only [Client.Won, pc] at hwon
      intro hflag j hj
      simp only [if_true, Bool.or_eq_false_iff, Bool.not_eq_false'] at hflag
      simp only [Client.setCtx]
      by_cases hjk : j = k
      · rw [hjk, Function.update_self]
        exact hflag.2
      · rw [Function.update_of_ne hjk]
        exact hwon hflag.1 j (by omega)
    | _ => trivial
  | commit pc le flag =>
    simp only [Client.Won, pc] at hwon
    exact fun j hj => hwon flag j (by omega)
  | @decrement k pc lt =>
    simp only [Client.Won, pc] at hwon
    intro j hj
    simp only [Client.setCtx]
    by_cases hjk : j = k
    · rw [hjk, Function.update_self]
      exact hwon k lt
    · rw [Function.update_of_ne hjk]
      exact hwon j hj
  | _ => trivial

theorem ClientOK.moves (h : ClientOK cl grip) (hmove : Moves c cl cl' es) : ClientOK cl' grip :=
  ⟨h.stage_moves hmove, h.won_moves hmove⟩

theorem Client.begin_eq {rand : ℕ → ℕ} (h : cl.begin rand = some cl') :
    cl.pc = .loop ∧ cl' = { cl.setCtx 0 ((cl.ctx 0).post .readTimestamp) with
      pc := .readTimestamp
      trx_num := cl.trx_num + 1
      cart := fill_shopping_cart cfg rand } := by
  obtain ⟨⟨hpc, -⟩, hcl⟩ := Option.ite_none_right_eq_some.1 h
  exact ⟨hpc, (Option.some.inj hcl).symm⟩

/-- Between two transactions nothing is under way. -/
theorem ClientOK.idle (h : ClientOK cl grip) (hpc : cl.pc = .loop) (i : ℕ) :
    (cl.ctx i).queue = [] ∧ (cl.ctx i).completions = 0 ∧ grip i = .none := by
  have hstage := h.stage i
  simp only [Client.view, PC.view, hpc, ite_self] at hstage
  generalize grip i = g at hstage
  cases hstage with
  | idle queue completions => exact ⟨queue, completions, rfl⟩

theorem ClientOK.begin {rand : ℕ → ℕ} (h : ClientOK cl grip) (hbegin : cl.begin rand = some cl') :
    ClientOK cl' grip := by
  obtain ⟨hpc, rfl⟩ := Client.begin_eq hbegin
  refine ⟨fun i => ?_, trivial⟩
  obtain ⟨hqueue, hcompletions, hgrip⟩ := h.idle hpc i
  rw [hgrip]
  simp only [Client.view, PC.view, Client.setCtx]
  by_cases hi : i = 0
  · subst hi
    rw [if_pos cfg.orderline_pos, if_pos rfl, Function.update_self]
    exact .oracle (congrArg (· ++ _) hqueue) hcompletions
  · rw [if_neg hi, ite_self, Function.update_of_ne hi]
    exact .idle hqueue hcompletions

theorem Context.serve_frame {ctx ctx' : Context} {t : Trx} {k : ℕ} {server server' : Server}
    {timestamp timestamp' : ℕ}
    (h : ctx.serve t k server timestamp = some (ctx', server', timestamp', es)) :
    ctx'.successful_locking_servers = ctx.successful_locking_servers ∧ timestamp ≤ timestamp' := by
  unfold Context.serve at h
  split at h
  · cases h
  · rename_i r queue _
    cases r with
    | cmpSwap x expected new =>
      simp only at h
      split at h <;> cases h <;> exact ⟨rfl, Nat.le_refl _⟩
    | fetchAdd =>
      cases h
      exact ⟨rfl, Nat.le_succ _⟩
    | _ =>
      cases h
      exact ⟨rfl, Nat.le_refl _⟩

theorem ClientOK.serve {t : Trx} {k : ℕ} {ctx' : Context} {server server' : Server}
    {timestamp timestamp' : ℕ} (h : ClientOK cl grip)
    (hserve : (cl.ctx k).serve t k server timestamp = some (ctx', server', timestamp', es)) :
    ∃ g', Served t k (cl.line k) cl.commit_timestamp server timestamp (cl.view k) (grip k) ctx'
        server' timestamp' es g' ∧
      ClientOK (cl.setCtx k ctx') (Function.update grip k g') := by
  obtain ⟨g', hserved, hstage⟩ := (h.stage k).serve hserve
  refine ⟨g', hserved, fun i => ?_, ?_⟩
  · show Stage (cl.line i) cl.commit_timestamp (Function.update cl.ctx k ctx' i) (cl.view i) _
    by_cases hi : i = k
    · rw [hi, Function.update_self, Function.update_self]
      exact hstage
    · rw [Function.update_of_ne hi, Function.update_of_ne hi]
      exact h.stage i
  · have hsame (i : ℕ) : ((cl.setCtx k ctx').ctx i).successful_locking_servers =
        (cl.ctx i).successful_locking_servers := by
      simp only [Client.setCtx]
      by_cases hi : i = k
      · rw [hi, Function.update_self, (Context.serve_frame hserve).1]
      · rw [Function.update_of_ne hi]
    have hwon := h.won
    unfold Client.Won at hwon ⊢
    simp only [hsame]
    exact hwon

end Client

/-! ## What the view says about the transaction -/

namespace Client

variable {cfg : Config} {cl : Client cfg} {i : ℕ}

/-- A request of a phase is under way only in the two loops of the phase. -/
theorem pc_of_during {φ : Phase} (h : cl.view i = φ.during) :
    (∃ j, cl.pc = .post φ j) ∨ ∃ j, cl.pc = .poll φ j := by
  rw [← pc_view (by rw [h]; cases φ <;> simp [Phase.during])] at h
  cases hpc : cl.pc with
  | post ψ j =>
    rw [hpc] at h
    obtain rfl : ψ = φ := by
      cases ψ <;> cases φ <;> simp [PC.view, Phase.before, Phase.during] at h ⊢ <;> grind
    exact .inl ⟨j, rfl⟩
  | poll ψ j =>
    rw [hpc] at h
    obtain rfl : ψ = φ := by
      cases ψ <;> cases φ <;> simp [PC.view, Phase.after, Phase.during] at h ⊢ <;> grind
    exact .inr ⟨j, rfl⟩
  | _ => cases φ <;> simp [hpc, PC.view, Phase.during] at h <;> grind

theorem pc_of_writing (h : cl.view i = .writing) :
    (∃ j, cl.pc = .decrement j) ∨ ∃ j, cl.pc = .post .release j := by
  rw [← pc_view (by rw [h]; simp)] at h
  cases hpc : cl.pc with
  | post ψ j =>
    cases ψ <;> simp [hpc, PC.view, Phase.before, Phase.during] at h ⊢ <;> grind
  | poll ψ j => cases ψ <;> simp [hpc, PC.view, Phase.after, Phase.during] at h <;> grind
  | decrement j => exact .inl ⟨j, rfl⟩
  | _ => simp [hpc, PC.view] at h <;> grind

theorem committing_of_view (h : cl.view i = .writing ∨ cl.view i = .releasing) :
    cl.Committing := by
  obtain h | h := h
  · obtain ⟨j, hpc⟩ | ⟨j, hpc⟩ := pc_of_writing h <;> simp [Committing, hpc]
  · have h : cl.view i = Phase.during .release := h
    obtain ⟨j, hpc⟩ | ⟨j, hpc⟩ := pc_of_during h <;> simp [Committing, hpc]

theorem committing_iff_of_during {φ : Phase} (h : cl.view i = φ.during) :
    cl.Committing ↔ φ = .release := by
  obtain ⟨j, hpc⟩ | ⟨j, hpc⟩ := pc_of_during h <;> simp [Committing, hpc]

theorem stamped_iff_of_during {φ : Phase} (h : cl.view i = φ.during) {b : ℕ} :
    cl.Stamped b ↔ φ ≠ .item ∧ b = cl.commit_timestamp := by
  obtain ⟨j, hpc⟩ | ⟨j, hpc⟩ := pc_of_during h <;> simp [Stamped, hpc]

theorem stamped_of_committing (h : cl.Committing) : cl.Stamped cl.commit_timestamp := by
  unfold Committing at h
  cases hpc : cl.pc <;> simp_all [Stamped]

end Client

/-! ## Commit timestamps -/

section Stamped

variable {cfg : Config} {c : ℕ} {cl cl' : Client cfg} {es : List Event}
  {grip : ℕ → Grip ItemVersion} {b : ℕ}

/-- No operation of the client gives it a commit timestamp that was not drawn before. -/
theorem ClientOK.stamped_moves (h : ClientOK cl grip) (hmove : Moves c cl cl' es)
    (hb : cl'.Stamped b) : cl.Stamped b := by
  cases hmove with
  | readTimestamp => exact absurd rfl hb.1
  | post pc _ =>
    simp only [Client.Stamped, pc]
    exact hb
  | posted pc _ =>
    simp only [Client.Stamped, pc]
    exact hb
  | poll pc _ _ =>
    simp only [Client.Stamped, pc]
    exact hb
  | @fetched k pc le =>
    have hstage := h.stage 0
    have hpos := cfg.orderline_pos
    simp only [Client.view, PC.view, pc, hpos, if_true, show 0 < k by omega] at hstage
    generalize grip 0 = g at hstage
    cases hstage with
    | fetched _ completions =>
      have := hb.1
      simp only [Client.setCtx, Function.update_self, Context.post, completions] at this
      omega
  | commitTimestamp pc poll =>
    obtain ⟨hpos, rfl⟩ := Stage.poll_completion poll
    simp only [Client.Stamped, pc]
    exact ⟨hpos, hb.2⟩
  | fail pc _ => simpa [Client.Stamped, pc] using hb
  | abort => exact hb.elim
  | commit pc _ _ => simpa [Client.Stamped, pc] using hb
  | decrement pc _ =>
    simp only [Client.Stamped, pc]
    exact hb
  | decremented pc _ => simpa [Client.Stamped, pc] using hb
  | finish => exact hb.elim

theorem Served.stamped {t : Trx} {k timestamp timestamp' : ℕ} {server server' : Server}
    {ctx' : Context} {g' : Grip ItemVersion}
    (h : Served t k (cl.line k) cl.commit_timestamp server timestamp (cl.view k) (grip k) ctx'
      server' timestamp' es g') (hb : (cl.setCtx k ctx').Stamped b) :
    cl.Stamped b ∨ timestamp' = timestamp + 1 ∧ b = timestamp + 1 := by
  cases hpc : cl.pc with
  | commitTimestamp =>
    simp only [Client.Stamped, Client.setCtx, hpc] at hb
    by_cases hk : k = 0
    · subst hk
      rw [Function.update_self] at hb
      have hview : cl.view 0 = .stamping := by
        simp [Client.view, PC.view, hpc, cfg.orderline_pos]
      rw [hview] at h
      cases h with
      | fetchAdd _ region => exact .inr ⟨rfl, by rw [hb.2, region]⟩
      | readTimestamp view => cases view
      | read view => cases view
      | acquire view => cases view
      | refuse view => cases view
      | revert view => cases view
      | install view => simp at view
      | release view => cases view
    · rw [Function.update_of_ne (Ne.symm hk)] at hb
      simp only [Client.Stamped, hpc]
      exact .inl hb
  | loop => simp [Client.Stamped, Client.setCtx, hpc] at hb
  | readTimestamp => simp [Client.Stamped, Client.setCtx, hpc] at hb
  | _ =>
    simp only [Client.Stamped, Client.setCtx, hpc] at hb ⊢
    exact .inl hb

end Stamped

end RdmaSnapshot.TPCW.RSI
