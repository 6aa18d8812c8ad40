import Mathlib.Data.List.Range
import RdmaSnapshot.TPCW.TwoSided

/-!
# One connection of the two-sided managers

What is under way between a thread of the transaction manager and the thread that serves it on one
resource manager. The transaction manager waits for the responses to its first two requests of a
transaction but not for the last one, so at any time at most one task of an earlier transaction is
left. A lock that a connection holds is held for that task or for the current transaction.
-/

namespace RdmaSnapshot.TPCW.TwoSided

/-! ## What a thread has to do -/

inductive Task
  | request (r : Request)
  /-- The second half of the installation of a version. -/
  | unlock (I_ID : Int32)

def install : WriteDataRequest → Option (ShoppingCartLine × UInt64)
  | .INSTALL_VERSION line commit_ts => some (line, commit_ts)
  | _ => none

namespace Task

def lock : Task → Option Int32
  | .request (.writeData (.UNLOCK I_ID)) => some I_ID
  | .request (.writeData (.INSTALL_VERSION line _)) => some line.SCL_I_ID
  | .unlock I_ID => some I_ID
  | _ => none

@[simp] theorem lock_itemInfo (x : Int32) : lock (.request (.itemInfo x)) = none := rfl

@[simp] theorem lock_lock (x : Int32) : lock (.request (.lock x)) = none := rfl

@[simp] theorem lock_doNothing (x : Int32) :
    lock (.request (.writeData (.DO_NOTHING x))) = none := rfl

@[simp] theorem lock_install (line : ShoppingCartLine) (ts : UInt64) :
    lock (.request (.writeData (.INSTALL_VERSION line ts))) = some line.SCL_I_ID := rfl

@[simp] theorem lock_unlock (x : Int32) : lock (.unlock x) = some x := rfl

def install : Task → Option (ShoppingCartLine × UInt64)
  | .request (.writeData r) => TwoSided.install r
  | _ => none

def IsLast : Task → Prop
  | .request (.writeData _) => True
  | .unlock _ => True
  | _ => False

end Task

def releases (todo : List (ℕ × Task)) : List (ℕ × Int32) :=
  todo.filterMap fun p => p.2.lock.map fun x => (p.1, x)

@[simp] theorem releases_nil : releases [] = [] := rfl

@[simp] theorem releases_cons (n : ℕ) (k : Task) (todo : List (ℕ × Task)) :
    releases ((n, k) :: todo) = (k.lock.map fun x => (n, x)).toList ++ releases todo := by
  cases h : k.lock <;> simp [releases, h]

@[simp] theorem releases_append (todo todo' : List (ℕ × Task)) :
    releases (todo ++ todo') = releases todo ++ releases todo' :=
  List.filterMap_append

namespace Link

/-- What the thread is in the middle of. -/
def doing (l : Link) : List (ℕ × Task) :=
  match l.pc with
  | .receive _ => []
  | .handle n r => [(n, .request r)]
  | .unlock n I_ID => [(n, .unlock I_ID)]

/-- What the thread has to do, in this order, each with the transaction it is for. -/
def todo (l : Link) : List (ℕ × Task) :=
  l.doing ++ l.requests.map fun p => (p.1, .request p.2)

def toInstall (l : Link) : List (ℕ × ShoppingCartLine × UInt64) :=
  l.todo.filterMap fun p => p.2.install.map fun v => (p.1, v)

end Link

/-- What one operation of the thread for client `c` on resource manager `i` does. -/
inductive Does (c i : ℕ) (l : Link) (rm : ResManager) : Link → ResManager → List Event → Prop
  | receive {l' : Link} (todo : l'.todo = l.todo) (responses : l'.responses = l.responses) :
      Does c i l rm l' rm []
  | itemInfo {l' : Link} {n : ℕ} {x : Int32} {v : ItemVersion}
      (todo : l.todo = (n, .request (.itemInfo x)) :: l'.todo)
      (responses : l'.responses = l.responses ++ [.itemInfo v]) : Does c i l rm l' rm []
  | refuse {l' : Link} {n : ℕ} {x : Int32} (todo : l.todo = (n, .request (.lock x)) :: l'.todo)
      (responses : l'.responses = l.responses ++ [.lock false]) : Does c i l rm l' rm []
  | grant {l' : Link} {n : ℕ} {x : Int32} (todo : l.todo = (n, .request (.lock x)) :: l'.todo)
      (responses : l'.responses = l.responses ++ [.lock true]) (free : rm.item_lock x = false) :
      Does c i l rm l' (rm.lock_item x) [.locked ⟨c, n⟩ i x]
  | release {l' : Link} {n : ℕ} {k : Task} {x : Int32} (todo : l.todo = (n, k) :: l'.todo)
      (responses : l'.responses = l.responses) (last : k.IsLast) (lock : k.lock = some x)
      (install : k.install = none) :
      Does c i l rm l' (rm.unlock_item x) [.unlocked ⟨c, n⟩ i x]
  | nothing {l' : Link} {n : ℕ} {x : Int32}
      (todo : l.todo = (n, .request (.writeData (.DO_NOTHING x))) :: l'.todo)
      (responses : l'.responses = l.responses) : Does c i l rm l' rm []
  | install {l' : Link} {n : ℕ} {line : ShoppingCartLine} {ts : UInt64} {rest : List (ℕ × Task)}
      (todo : l.todo = (n, .request (.writeData (.INSTALL_VERSION line ts))) :: rest)
      (todo' : l'.todo = (n, .unlock line.SCL_I_ID) :: rest)
      (responses : l'.responses = l.responses) :
      Does c i l rm l' (rm.decremenet_item_stock line.SCL_I_ID line.SCL_QTY ts)
        [.installed ⟨c, n⟩ i line ts]

section Thread

variable {cfg : Config} {c i : ℕ} {l l' : Link} {rm rm' : ResManager} {es : List Event}

theorem Link.next_does (h : l.next cfg c i rm = some (l', rm', es)) :
    Does c i l rm l' rm' es := by
  obtain ⟨requests, responses, pc, trx_num⟩ := l
  cases pc with
  | receive t =>
    cases requests with
    | nil => simp [Link.next] at h
    | cons p requests =>
      simp only [Link.next, Option.ite_none_right_eq_some, Option.some.injEq,
        Prod.mk.injEq] at h
      obtain ⟨-, rfl, rfl, rfl⟩ := h
      exact .receive rfl rfl
  | handle n r =>
    cases r with
    | itemInfo x =>
      simp only [Link.next] at h
      cases h
      exact .itemInfo rfl rfl
    | lock x =>
      simp only [Link.next] at h
      split at h <;> cases h
      · exact .refuse rfl rfl
      · rename_i hfree
        exact .grant rfl rfl (by simpa using hfree)
    | writeData r =>
      cases r <;> simp only [Link.next] at h <;> cases h
      · exact .nothing rfl rfl
      · exact .release rfl rfl trivial rfl rfl
      · exact .install rfl rfl rfl
  | unlock n x =>
    simp only [Link.next] at h
    cases h
    exact .release rfl rfl trivial rfl rfl

end Thread

/-! ## Histories -/

/-- The last requests sent for client `c` to resource manager `i`, with their transactions. -/
def sentTo (trace : List Event) (c i : ℕ) : List (ℕ × WriteDataRequest) :=
  trace.filterMap fun e =>
    match e with
    | .sent t j r => if t.client = c ∧ j = i then some (t.number, r) else none
    | _ => none

/-- The versions installed for client `c` on resource manager `i`, with their transactions. -/
def installsOf (trace : List Event) (c i : ℕ) : List (ℕ × ShoppingCartLine × UInt64) :=
  trace.filterMap fun e =>
    match e with
    | .installed t j line ts => if t.client = c ∧ j = i then some (t.number, line, ts) else none
    | _ => none

section Histories

variable {trace es : List Event} {c i : ℕ}

@[simp] theorem sentTo_nil : sentTo [] c i = [] := rfl

@[simp] theorem installsOf_nil : installsOf [] c i = [] := rfl

@[simp] theorem sentTo_append : sentTo (trace ++ es) c i = sentTo trace c i ++ sentTo es c i :=
  List.filterMap_append

@[simp] theorem installsOf_append :
    installsOf (trace ++ es) c i = installsOf trace c i ++ installsOf es c i :=
  List.filterMap_append

theorem installsBy_eq (t : Trx) : installsBy trace t i = (installsOf trace t.client i).filterMap
    fun p => if p.1 = t.number then some p.2.1 else none := by
  rw [installsOf, List.filterMap_filterMap, installsBy]
  congr 1
  funext e
  cases e with
  | installed u j line ts =>
    obtain ⟨client, number⟩ := t
    obtain ⟨uclient, unumber⟩ := u
    by_cases hc : uclient = client ∧ j = i
    · simp [hc]
    · have : ¬((uclient = client ∧ unumber = number) ∧ j = i) := fun h => hc ⟨h.1.1, h.2⟩
      simp [hc, this]
  | _ => rfl

theorem holders_append {x : Int32} :
    holders (trace ++ es) i x = es.foldl (hold i x) (holders trace i x) :=
  List.foldl_append

end Histories

theorem Does.sentTo_eq {c i : ℕ} {l l' : Link} {rm rm' : ResManager} {es : List Event}
    (h : Does c i l rm l' rm' es) (c' i' : ℕ) : sentTo es c' i' = [] := by
  cases h <;> rfl

theorem Does.toInstall {c i : ℕ} {l l' : Link} {rm rm' : ResManager} {es : List Event}
    (h : Does c i l rm l' rm' es) : installsOf es c i ++ l'.toInstall = l.toInstall := by
  cases h with
  | receive todo _ => simp [Link.toInstall, todo]
  | itemInfo todo _ => simp [Link.toInstall, todo, Task.install]
  | refuse todo _ => simp [Link.toInstall, todo, Task.install]
  | grant todo _ _ => simp [Link.toInstall, todo, Task.install, installsOf]
  | release todo _ _ _ hinstall => simp [Link.toInstall, todo, hinstall, installsOf]
  | nothing todo _ => simp [Link.toInstall, todo, Task.install, TwoSided.install]
  | install todo todo' _ =>
    simp [Link.toInstall, todo, todo', Task.install, TwoSided.install, installsOf]

/-! ## Where a transaction manager is -/

/-- What a thread of the transaction manager has done, in its current transaction, with one
resource manager. -/
inductive View
  /-- Nothing is outstanding, or the last exchange was. -/
  | quiet
  | askedItem
  | gotItem
  | askedLock
  | gotLock
  deriving DecidableEq

namespace TrxManager

variable (tm : TrxManager) (i : ℕ)

def view : View :=
  match tm.pc with
  | .readCommitRequest => .quiet
  | .write .itemInfo j => if i < j then .askedItem else .quiet
  | .readItemInfo j => if i < j then .gotItem else .askedItem
  | .write .lock j => if i < j then .askedLock else .gotItem
  | .readLock j => if i < j then .gotLock else .askedLock
  | .write .writeData j => if i < j then .quiet else .gotLock
  | .writeCommitResponse => .quiet

def asks : Round :=
  match tm.pc with
  | .write t j => if i < j then t.next else t
  | .readItemInfo _ => .lock
  | .readLock _ => .writeData
  | .readCommitRequest => .itemInfo
  | .writeCommitResponse => .itemInfo

/-- The number of transactions that resource manager `i` has been told of. -/
def opened : ℕ :=
  match tm.pc with
  | .write .itemInfo j => if i < j then tm.trx_num else tm.trx_num - 1
  | _ => tm.trx_num

/-- The number of transactions whose last request was sent to resource manager `i`. -/
def closed : ℕ :=
  match tm.pc with
  | .readCommitRequest => tm.trx_num
  | .write .writeData j => if i < j then tm.trx_num else tm.trx_num - 1
  | .writeCommitResponse => tm.trx_num
  | _ => tm.trx_num - 1

/-- The last request of the current transaction was sent to resource manager `i`, and the client
was not answered. -/
def Closing : Prop :=
  match tm.pc with
  | .write .writeData j => i < j
  | .writeCommitResponse => True
  | _ => False

/-- The thread has collected all lock responses and is about to answer. -/
def Deciding : Prop := (∃ i, tm.pc = .write .writeData i) ∨ tm.pc = .writeCommitResponse

end TrxManager

/-! ## What is under way -/

/-- At most one task is left of earlier transactions, and it belongs to a last exchange. -/
def Rest (todo : List (ℕ × Task)) : Prop := todo = [] ∨ ∃ n k, k.IsLast ∧ todo = [(n, k)]

/-- What is under way on a connection in transaction number `n`, whose line there is for item `x`,
by what the transaction manager has done. -/
def Shape (n : ℕ) (x : Int32) (l : Link) : View → Prop
  | .quiet => Rest l.todo ∧ l.responses = []
  | .askedItem =>
    (∃ rest, Rest rest ∧ l.todo = rest ++ [(n, .request (.itemInfo x))] ∧ l.responses = []) ∨
      (l.todo = [] ∧ ∃ v, l.responses = [.itemInfo v])
  | .gotItem => l.todo = [] ∧ l.responses = []
  | .askedLock =>
    (l.todo = [(n, .request (.lock x))] ∧ l.responses = []) ∨
      (l.todo = [] ∧ ∃ ok, l.responses = [.lock ok])
  | .gotLock => l.todo = [] ∧ l.responses = []

section Shape

variable {c i n : ℕ} {x : Int32} {l l' : Link} {rm rm' : ResManager} {es : List Event} {v : View}

/-- The next task of a thread is left of an earlier transaction, or it is the exchange the
transaction manager waits for. -/
theorem Shape.head {m : ℕ} {k : Task} {rest : List (ℕ × Task)} (h : Shape n x l v)
    (htodo : l.todo = (m, k) :: rest) : l.responses = [] ∧
      (k.IsLast ∧ (v = .quiet ∧ rest = [] ∨
        v = .askedItem ∧ rest = [(n, .request (.itemInfo x))]) ∨
      k = .request (.itemInfo x) ∧ v = .askedItem ∧ rest = [] ∨
      k = .request (.lock x) ∧ m = n ∧ v = .askedLock ∧ rest = []) := by
  cases v with
  | quiet =>
    obtain ⟨hnil | ⟨n', k', hk, htodo'⟩, hresponses⟩ := h
    · simp [htodo] at hnil
    · simp_all
  | askedItem =>
    obtain ⟨rest', hnil | ⟨n', k', hk, hrest⟩, htodo', hresponses⟩ | ⟨hnil, -⟩ := h
    · simp_all
    · simp_all
    · simp [htodo] at hnil
  | gotItem => simp [Shape, htodo] at h
  | askedLock =>
    obtain ⟨htodo', hresponses⟩ | ⟨hnil, -⟩ := h
    · simp_all
    · simp [htodo] at hnil
  | gotLock => simp [Shape, htodo] at h

theorem Shape.of_last {m : ℕ} {k : Task} {rest : List (ℕ × Task)} (h : Shape n x l v)
    (htodo : l.todo = (m, k) :: rest) (hk : k.IsLast) :
    l.responses = [] ∧ (v = .quiet ∧ rest = [] ∨
      v = .askedItem ∧ rest = [(n, .request (.itemInfo x))]) := by
  obtain ⟨hresponses, ⟨-, hv⟩ | ⟨rfl, -⟩ | ⟨rfl, -⟩⟩ := h.head htodo
  · exact ⟨hresponses, hv⟩
  · exact hk.elim
  · exact hk.elim

theorem Shape.of_lock {m : ℕ} {y : Int32} {rest : List (ℕ × Task)} (h : Shape n x l v)
    (htodo : l.todo = (m, .request (.lock y)) :: rest) :
    v = .askedLock ∧ m = n ∧ y = x ∧ rest = [] ∧ l.responses = [] := by
  obtain ⟨hresponses, ⟨hk, -⟩ | ⟨hk, -⟩ | ⟨hk, hm, hv, hrest⟩⟩ := h.head htodo
  · exact hk.elim
  · simp at hk
  · exact ⟨hv, hm, by simpa using hk, hrest, hresponses⟩

theorem Shape.of_itemInfo {m : ℕ} {y : Int32} {rest : List (ℕ × Task)} (h : Shape n x l v)
    (htodo : l.todo = (m, .request (.itemInfo y)) :: rest) :
    v = .askedItem ∧ rest = [] ∧ l.responses = [] := by
  obtain ⟨hresponses, ⟨hk, -⟩ | ⟨-, hv, hrest⟩ | ⟨hk, -⟩⟩ := h.head htodo
  · exact hk.elim
  · exact ⟨hv, hrest, hresponses⟩
  · simp at hk

/-- A task of a last exchange that is done leaves its transaction's shape. -/
theorem Shape.pop_last {m : ℕ} {k : Task} (h : Shape n x l v) (htodo : l.todo = (m, k) :: l'.todo)
    (hk : k.IsLast) (hresponses : l'.responses = l.responses) : Shape n x l' v := by
  obtain ⟨hnil, ⟨rfl, hrest⟩ | ⟨rfl, hrest⟩⟩ := h.of_last htodo hk
  · exact ⟨.inl hrest, hresponses.trans hnil⟩
  · exact .inl ⟨[], .inl rfl, hrest, hresponses.trans hnil⟩

theorem Does.shape (h : Does c i l rm l' rm' es) (hl : Shape n x l v) : Shape n x l' v := by
  cases h with
  | receive todo responses =>
    cases v <;> simpa only [Shape, todo, responses] using hl
  | itemInfo todo responses =>
    obtain ⟨rfl, hrest, hnil⟩ := hl.of_itemInfo todo
    exact .inr ⟨hrest, _, by rw [responses, hnil]; rfl⟩
  | refuse todo responses =>
    obtain ⟨rfl, -, -, hrest, hnil⟩ := hl.of_lock todo
    exact .inr ⟨hrest, false, by rw [responses, hnil]; rfl⟩
  | grant todo responses _ =>
    obtain ⟨rfl, -, -, hrest, hnil⟩ := hl.of_lock todo
    exact .inr ⟨hrest, true, by rw [responses, hnil]; rfl⟩
  | release todo responses last _ _ => exact hl.pop_last todo last responses
  | nothing todo responses => exact hl.pop_last todo trivial responses
  | install todo todo' responses =>
    obtain ⟨hnil, ⟨rfl, hrest⟩ | ⟨rfl, hrest⟩⟩ := hl.of_last todo trivial
    · exact ⟨.inr ⟨_, .unlock _, trivial, by rw [todo', hrest]⟩, responses.trans hnil⟩
    · exact .inl ⟨[(_, .unlock _)], .inr ⟨_, .unlock _, trivial, rfl⟩, by rw [todo', hrest]; rfl,
        responses.trans hnil⟩

end Shape

/-! ## Requests come in the order the thread expects -/

/-- A thread that waits for exchange `t` takes the requests and then waits for exchange `u`. -/
def Follows : Round → List (ℕ × Request) → Round → Prop
  | t, [], u => t = u
  | t, p :: ps, u => p.2.round = t ∧ Follows t.next ps u

theorem Follows.append {t u : Round} {ps : List (ℕ × Request)} {n : ℕ} {r : Request}
    (h : Follows t ps u) (hr : r.round = u) : Follows t (ps ++ [(n, r)]) u.next := by
  induction ps generalizing t with
  | nil =>
    obtain rfl : t = u := h
    exact ⟨hr, rfl⟩
  | cons p ps ih => exact ⟨h.1, ih h.2⟩

namespace Link

/-- The exchange that the thread waits for next. -/
def expects (l : Link) : Round :=
  match l.pc with
  | .receive t => t
  | .handle _ r => r.round.next
  | .unlock _ _ => .itemInfo

/-- The requests that open a transaction and were not received. -/
def openings (l : Link) : ℕ := l.requests.countP fun p => p.2.round = .itemInfo

/-- An operation of the thread keeps the order of the exchanges and the number of transactions it
was or will be told of. -/
theorem next_follows {cfg : Config} {c i : ℕ} {l l' : Link} {rm rm' : ResManager}
    {es : List Event} {u : Round} (h : l.next cfg c i rm = some (l', rm', es))
    (hl : Follows l.expects l.requests u) :
    Follows l'.expects l'.requests u ∧ l'.trx_num + l'.openings = l.trx_num + l.openings := by
  obtain ⟨requests, responses, pc, trx_num⟩ := l
  cases pc with
  | receive t =>
    cases requests with
    | nil => simp [Link.next] at h
    | cons p requests =>
      simp only [Link.next, Option.ite_none_right_eq_some, Option.some.injEq,
        Prod.mk.injEq] at h
      obtain ⟨⟨hround, -⟩, rfl, rfl, rfl⟩ := h
      refine ⟨?_, ?_⟩
      · simpa only [expects, hround] using hl.2
      · simp only [openings, List.countP_cons, hround]
        split <;> simp_all
        omega
  | handle n r =>
    cases r with
    | itemInfo x =>
      simp only [Link.next] at h
      cases h
      exact ⟨hl, rfl⟩
    | lock x =>
      simp only [Link.next] at h
      split at h <;> cases h <;> exact ⟨hl, rfl⟩
    | writeData r =>
      cases r <;> simp only [Link.next] at h <;> cases h <;> exact ⟨hl, rfl⟩
  | unlock n x =>
    simp only [Link.next] at h
    cases h
    exact ⟨hl, rfl⟩

end Link

/-! ## One connection -/

def Settles (line : ShoppingCartLine) (r : WriteDataRequest) : CommitOutcome → Prop
  | .COMMITTED => ∃ commit_ts, install r = some (line, commit_ts)
  | .ABORTED => install r = none

structure LinkOK (c : ℕ) (tm : TrxManager) (i : ℕ) (l : Link) (trace : List Event) : Prop where
  shape : Shape tm.trx_num (tm.line i).SCL_I_ID l (tm.view i)
  follows : Follows l.expects l.requests (tm.asks i)
  opened : l.trx_num + l.openings = tm.opened i
  /-- One last request was sent for each transaction. -/
  closed : (sentTo trace c i).map Prod.fst = List.range' 1 (tm.closed i)
  /-- What was asked to be installed is installed or will be. -/
  installs : installsOf trace c i ++ l.toInstall =
    (sentTo trace c i).filterMap fun p => (install p.2).map fun v => (p.1, v)
  lock_request : tm.view i = .askedLock ∨ tm.view i = .gotLock →
    tm.lock_request i = (tm.line i).SCL_I_ID
  refused : tm.view i = .gotLock → tm.successful_locking_servers i = false → tm.abort_flag = true
  closing : tm.Closing i → (tm.trx_num, tm.writeData i) ∈ sentTo trace c i
  committed : ∀ p ∈ sentTo trace c i, install p.2 ≠ none →
    (∃ cart, .answered ⟨c, p.1⟩ cart .COMMITTED ∈ trace) ∨
      p.1 = tm.trx_num ∧ tm.abort_flag = false ∧ tm.Deciding

/-- The locks that are held on a connection, with their transactions: those that a task will
release, and that of the current transaction while the transaction manager has still to decide
what becomes of it. -/
def heldLocks (tm : TrxManager) (i : ℕ) (l : Link) : List (ℕ × Int32) :=
  releases l.todo ++
    if .lock true ∈ l.responses ∨
        tm.view i = .gotLock ∧ tm.successful_locking_servers i = true then
      [(tm.trx_num, tm.lock_request i)]
    else []

/-- What an operation of a thread does to the locks of its resource manager and to those it
holds. -/
inductive LockEffect (c i : ℕ) (rm rm' : ResManager) (es : List Event)
    (before after : List (ℕ × Int32)) : Prop
  | none (locks : rm'.item_lock = rm.item_lock)
      (events : ∀ j x ts, es.foldl (hold j x) ts = ts) (held : after = before)
  | lock (n : ℕ) (x : Int32) (free : rm.item_lock x = false)
      (locks : rm'.item_lock = Function.update rm.item_lock x true)
      (events : es = [.locked ⟨c, n⟩ i x]) (before : before = []) (after : after = [(n, x)])
  | unlock (n : ℕ) (x : Int32) (locks : rm'.item_lock = Function.update rm.item_lock x false)
      (events : es = [.unlocked ⟨c, n⟩ i x]) (before : before = [(n, x)]) (after : after = [])

section Connection

variable {c i : ℕ} {tm : TrxManager} {l l' : Link} {rm rm' : ResManager} {trace es : List Event}

theorem held_of_last {n : ℕ} {k : Task} {rest : List (ℕ × Task)} (hl : LinkOK c tm i l trace)
    (htodo : l.todo = (n, k) :: rest) (hk : k.IsLast) :
    heldLocks tm i l = (k.lock.map fun x => (n, x)).toList ∧
      releases rest = [] ∧ tm.view i ≠ .gotLock ∧ l.responses = [] := by
  obtain ⟨hresponses, ⟨hv, rfl⟩ | ⟨hv, rfl⟩⟩ := hl.shape.of_last htodo hk
  · exact ⟨by simp [heldLocks, htodo, hresponses, hv], rfl, by simp [hv], hresponses⟩
  · exact ⟨by simp [heldLocks, htodo, hresponses, hv], rfl, by simp [hv], hresponses⟩

theorem Does.lockEffect (h : Does c i l rm l' rm' es) (hl : LinkOK c tm i l trace) :
    LockEffect c i rm rm' es (heldLocks tm i l) (heldLocks tm i l') := by
  cases h with
  | receive todo responses =>
    exact .none rfl (fun _ _ _ => rfl) (by simp only [heldLocks, todo, responses])
  | itemInfo todo responses =>
    exact .none rfl (fun _ _ _ => rfl) (by simp [heldLocks, todo, responses])
  | refuse todo responses =>
    exact .none rfl (fun _ _ _ => rfl) (by simp [heldLocks, todo, responses])
  | grant todo responses free =>
    obtain ⟨hv, rfl, rfl, hrest, hnil⟩ := hl.shape.of_lock todo
    refine .lock _ _ free rfl rfl ?_ ?_
    · simp [heldLocks, todo, hrest, hnil, hv]
    · simp [heldLocks, hrest, responses, hl.lock_request (.inl hv)]
  | release todo responses last lock install =>
    obtain ⟨hheld, hrest, hv, hnil⟩ := held_of_last hl todo last
    refine .unlock _ _ rfl rfl ?_ ?_
    · simp [hheld, lock]
    · rw [heldLocks, hrest, responses, hnil]
      simp [hv]
  | nothing todo responses =>
    exact .none rfl (fun _ _ _ => rfl) (by simp [heldLocks, todo, responses])
  | install todo todo' responses =>
    exact .none rfl (fun _ _ _ => rfl) (by simp [heldLocks, todo, todo', responses])

theorem LinkOK.thread {cfg : Config} (h : l.next cfg c i rm = some (l', rm', es))
    (hl : LinkOK c tm i l trace) : LinkOK c tm i l' (trace ++ es) := by
  have hdoes := Link.next_does h
  obtain ⟨hfollows, hopened⟩ := Link.next_follows h hl.follows
  have hsent : sentTo (trace ++ es) c i = sentTo trace c i := by
    rw [sentTo_append, hdoes.sentTo_eq, List.append_nil]
  constructor
  case shape => exact hdoes.shape hl.shape
  case follows => exact hfollows
  case opened => exact hopened.trans hl.opened
  case closed => rw [hsent]; exact hl.closed
  case installs => rw [hsent, installsOf_append, List.append_assoc, hdoes.toInstall, hl.installs]
  case lock_request => exact hl.lock_request
  case refused => exact hl.refused
  case closing => rw [hsent]; exact hl.closing
  case committed =>
    rw [hsent]
    intro p hp hinstall
    rcases hl.committed p hp hinstall with ⟨cart, hcart⟩ | hdeciding
    · exact .inl ⟨cart, List.mem_append_left _ hcart⟩
    · exact .inr hdeciding

end Connection

end RdmaSnapshot.TPCW.TwoSided
