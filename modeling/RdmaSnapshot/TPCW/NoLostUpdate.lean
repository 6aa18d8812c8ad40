import RdmaSnapshot.TPCW.VersionedItems

/-!
# The RSI client loses no update

A client that holds the lock of an item has the current version of the item, so the version it
writes replaces the version it was computed from. Between the commit of a transaction and its
writes the stock of an item lags behind the committed carts by one purchase, that of the holder of
the lock; when the lock is free nothing is owed.
-/

namespace RdmaSnapshot.TPCW.RSI

open VersionLock

/-! ## Histories -/

def Event.trx : Event → Trx
  | .locked t _ _ _ _ => t
  | .committed t _ => t
  | .aborted t => t
  | .installed t _ _ _ _ _ => t
  | .unlocked t _ _ _ _ => t

section Histories

variable {trace es : List Event} {t : Trx} {i x : ℕ}

@[simp] theorem lockedBy_append :
    lockedBy (trace ++ es) t i = lockedBy trace t i ++ lockedBy es t i :=
  List.filterMap_append

@[simp] theorem unlockedBy_append :
    unlockedBy (trace ++ es) t i = unlockedBy trace t i ++ unlockedBy es t i :=
  List.filterMap_append

@[simp] theorem commitsOn_append :
    commitsOn (trace ++ es) i x = commitsOn trace i x ++ commitsOn es i x :=
  List.filterMap_append

theorem lockedBy_of_trx (h : ∀ e ∈ es, e.trx ≠ t) : lockedBy es t i = [] := by
  refine List.filterMap_eq_nil_iff.2 fun e he => ?_
  cases e with
  | locked u j y old new => exact if_neg fun hu => h _ he hu.1
  | _ => rfl

theorem unlockedBy_of_trx (h : ∀ e ∈ es, e.trx ≠ t) : unlockedBy es t i = [] := by
  refine List.filterMap_eq_nil_iff.2 fun e he => ?_
  cases e with
  | unlocked u j y old new => exact if_neg fun hu => h _ he hu.1
  | _ => rfl

def stockAfter (I_STOCK : Int32) (quantities : List Int32) : Int32 :=
  quantities.foldl decrementStock I_STOCK

@[simp] theorem stockAfter_append {I_STOCK quantity : Int32} {quantities : List Int32} :
    stockAfter I_STOCK (quantities ++ [quantity]) =
      decrementStock (stockAfter I_STOCK quantities) quantity :=
  List.foldl_append

end Histories

/-! ## What an operation adds to the trace -/

section Events

variable {cfg : Config} {c : ℕ} {cl cl' : Client cfg} {es : List Event}
  {grip : ℕ → Grip ItemVersion}

theorem Moves.trx_eq (h : Moves c cl cl' es) : ∀ e ∈ es, e.trx = ⟨c, cl.trx_num⟩ := by
  cases h <;> simp [Event.trx]

theorem Moves.locks (h : Moves c cl cl' es) (t : Trx) (i : ℕ) :
    lockedBy es t i = [] ∧ unlockedBy es t i = [] := by
  cases h <;> exact ⟨rfl, rfl⟩

theorem Moves.pc_ne (h : Moves c cl cl' es) : cl.pc ≠ .loop := by
  cases h with
  | _ pc => simp [pc]

theorem Moves.not_installed (h : Moves c cl cl' es) {t : Trx} {i x : ℕ}
    {base old new : ItemVersion} : .installed t i x base old new ∉ es := by
  cases h <;> simp

theorem Moves.same (h : Moves c cl cl' es) : cl'.trx_num = cl.trx_num ∧ cl'.cart = cl.cart := by
  cases h <;> exact ⟨rfl, rfl⟩

/-- An operation of a client commits its transaction, or does not change that it is committed
while the client has anything of an item. -/
theorem ClientOK.committing (hok : ClientOK cl grip) (h : Moves c cl cl' es) :
    (es = [.committed ⟨c, cl.trx_num⟩ cl.lines] ∧ ¬cl.Committing ∧ cl'.Committing ∧
        ∀ i < cfg.ORDERLINE_PER_ORDER, grip i =
          .locked (cl.ctx i).items_region cl.commit_timestamp) ∨
      ((∀ i x, commitsOn es i x = []) ∧ (cl'.Committing → cl.Committing) ∧
        ((cl.Committing → cl'.Committing) ∨ ∀ i, grip i = .none)) := by
  cases h with
  | @commit k pc le flag =>
    refine .inl ⟨rfl, by simp [Client.Committing, pc], trivial, fun i hi => ?_⟩
    have hwon := hok.won
    simp only [Client.Won, pc] at hwon
    have hstage := hok.stage i
    simp only [Client.view, PC.view, pc, hi, if_true, show i < k by omega] at hstage
    generalize grip i = g at hstage
    cases hstage with
    | won => rfl
    | lost _ _ successful =>
      rw [hwon flag i (by omega)] at successful
      cases successful
  | @finish k pc le =>
    refine .inr ⟨fun _ _ => rfl, fun h => h.elim, .inr fun i => ?_⟩
    exact ((hok.moves (.finish (c := c) pc le)).idle rfl i).2.2
  | _ pc =>
    refine .inr ⟨fun _ _ => rfl, ?_, .inl ?_⟩ <;> simp [Client.Committing, pc]

section Served

variable {t : Trx} {k : ℕ} {line : ShoppingCartLine} {commit_timestamp : ℕ}
  {server server' : Server} {timestamp timestamp' : ℕ} {v : View} {g g' : Grip ItemVersion}
  {ctx' : Context}

variable (h : Served t k line commit_timestamp server timestamp v g ctx' server' timestamp' es g')

include h

theorem Served.trx_eq : ∀ e ∈ es, e.trx = t := by
  cases h <;> simp [Event.trx]

theorem Served.view_ne : v ≠ .idle := by
  cases h with
  | install view => obtain rfl | rfl := view <;> simp
  | _ view => simp [view]

theorem Served.locks_ne
    (u : Trx) {i : ℕ} (hi : i ≠ k) : lockedBy es u i = [] ∧ unlockedBy es u i = [] := by
  cases h <;> simp [lockedBy, unlockedBy, hi.symm]

theorem Served.commitsOn_eq
    (i x : ℕ) : commitsOn es i x = [] := by
  cases h <;> rfl

theorem Served.not_aborted
    {u : Trx} : .aborted u ∉ es := by
  cases h <;> simp

end Served

end Events

/-! ## Lock words -/

/-- The lock words of one server that a transaction acquired and gave back, by what it has of the
item of its cart line. -/
def Balanced (line : ShoppingCartLine) (locked unlocked : List (ℕ × Lock × Lock)) :
    Grip ItemVersion → Prop
  | .locked v t =>
    locked = unlocked ++ [(line.SCL_I_ID, .set_lock 0 v.write_timestamp, .set_lock 1 t)]
  | _ => locked = unlocked

/-- What the trace says about client `c`. -/
structure TraceOK {cfg : Config} (trace : List Event) (c : ℕ) (cl : Client cfg)
    (grip : ℕ → Grip ItemVersion) : Prop where
  fresh : ∀ n > cl.trx_num, ∀ i, lockedBy trace ⟨c, n⟩ i = [] ∧ unlockedBy trace ⟨c, n⟩ i = []
  current : cl.pc ≠ .loop → ¬cl.Committing → ∀ i, Balanced (cl.line i)
    (lockedBy trace ⟨c, cl.trx_num⟩ i) (unlockedBy trace ⟨c, cl.trx_num⟩ i) (grip i)
  committed : cl.Committing → .committed ⟨c, cl.trx_num⟩ cl.lines ∈ trace
  aborted : ∀ n, .aborted ⟨c, n⟩ ∈ trace →
    Restored trace ⟨c, n⟩ ∧ n ≤ cl.trx_num ∧ (n = cl.trx_num → cl.pc = .loop)

namespace TraceOK

variable {cfg : Config} {trace es : List Event} {c : ℕ} {cl cl' : Client cfg}
  {grip : ℕ → Grip ItemVersion}

theorem append (h : TraceOK trace c cl grip) (hes : ∀ e ∈ es, e.trx.client ≠ c) :
    TraceOK (trace ++ es) c cl grip := by
  have htrx (n : ℕ) : ∀ e ∈ es, e.trx ≠ ⟨c, n⟩ := by
    intro e he heq
    exact hes e he (by rw [heq])
  have hlocked (n i : ℕ) : lockedBy (trace ++ es) ⟨c, n⟩ i = lockedBy trace ⟨c, n⟩ i := by
    rw [lockedBy_append, lockedBy_of_trx (htrx n), List.append_nil]
  have hunlocked (n i : ℕ) : unlockedBy (trace ++ es) ⟨c, n⟩ i = unlockedBy trace ⟨c, n⟩ i := by
    rw [unlockedBy_append, unlockedBy_of_trx (htrx n), List.append_nil]
  refine ⟨fun n hn i => ?_, fun hpc hnot i => ?_, fun hcommitting => ?_, fun n hn => ?_⟩
  · rw [hlocked, hunlocked]
    exact h.fresh n hn i
  · rw [hlocked, hunlocked]
    exact h.current hpc hnot i
  · exact List.mem_append_left _ (h.committed hcommitting)
  · have hmem : .aborted ⟨c, n⟩ ∈ trace := by
      obtain hmem | hmem := List.mem_append.1 hn
      · exact hmem
      · exact absurd rfl (hes _ hmem)
    obtain ⟨hrestored, hle⟩ := h.aborted n hmem
    refine ⟨fun i => ?_, hle⟩
    rw [hlocked, hunlocked]
    exact hrestored i

theorem begin {rand : ℕ → ℕ} (h : TraceOK trace c cl grip) (hok : ClientOK cl grip)
    (hbegin : cl.begin rand = some cl') : TraceOK trace c cl' grip := by
  obtain ⟨hpc, rfl⟩ := Client.begin_eq hbegin
  refine ⟨fun n hn i => h.fresh n (Nat.lt_of_succ_lt hn) i, fun _ _ i => ?_, fun h => h.elim,
    fun n hn => ?_⟩
  · obtain ⟨hlocked, hunlocked⟩ := h.fresh (cl.trx_num + 1) (Nat.lt_succ_self _) i
    rw [(hok.idle hpc i).2.2]
    exact hlocked.trans hunlocked.symm
  · obtain ⟨hrestored, hle, -⟩ := h.aborted n hn
    refine ⟨hrestored, Nat.le_succ_of_le hle, fun heq => ?_⟩
    have heq : n = cl.trx_num + 1 := heq
    omega

/-- Before it aborts, a client has nothing of any item, so that all its locks are given back. -/
theorem restored (h : TraceOK trace c cl grip) (hok : ClientOK cl grip) {k : ℕ}
    (hpc : cl.pc = .poll .revert k) (hk : cfg.ORDERLINE_PER_ORDER ≤ k) :
    Restored trace ⟨c, cl.trx_num⟩ := by
  intro i
  have hbalanced := h.current (by simp [hpc]) (by simp [Client.Committing, hpc]) i
  rw [((hok.moves (.abort (c := c) hpc hk)).idle rfl i).2.2] at hbalanced
  exact hbalanced.symm

theorem moves (h : TraceOK trace c cl grip) (hok : ClientOK cl grip) (hmove : Moves c cl cl' es) :
    TraceOK (trace ++ es) c cl' grip := by
  obtain ⟨htrx, hcart⟩ := hmove.same
  have hlocked (t : Trx) (i : ℕ) : lockedBy (trace ++ es) t i = lockedBy trace t i := by
    rw [lockedBy_append, (hmove.locks t i).1, List.append_nil]
  have hunlocked (t : Trx) (i : ℕ) : unlockedBy (trace ++ es) t i = unlockedBy trace t i := by
    rw [unlockedBy_append, (hmove.locks t i).2, List.append_nil]
  have hrestored (t : Trx) : Restored (trace ++ es) t ↔ Restored trace t := by
    simp only [Restored, hlocked, hunlocked]
  have hline : cl'.line = cl.line := by
    funext i
    rw [Client.line, hcart]
    rfl
  refine ⟨fun n hn i => ?_, fun hpc' hnot i => ?_, fun hcommitting => ?_, fun n hn => ?_⟩
  · rw [hlocked, hunlocked]
    exact h.fresh n (htrx ▸ hn) i
  · rw [hlocked, hunlocked, htrx, hline]
    refine h.current hmove.pc_ne (fun hcommitting => ?_) i
    obtain ⟨-, hnot', -⟩ | ⟨-, -, hsame | hnone⟩ := hok.committing hmove
    · exact hnot' hcommitting
    · exact hnot (hsame hcommitting)
    · -- a committed transaction that has nothing left is finished
      cases hmove with
      | finish => exact hpc' rfl
      | _ pc => simp_all [Client.Committing]
  · rw [htrx, Client.lines, hline]
    obtain ⟨rfl, -⟩ | ⟨-, hback, -⟩ := hok.committing hmove
    · exact List.mem_append_right _ (List.mem_singleton_self _)
    · exact List.mem_append_left _ (h.committed (hback hcommitting))
  · rw [hrestored, htrx]
    obtain hmem | hmem := List.mem_append.1 hn
    · obtain ⟨hres, hle, hloop⟩ := h.aborted n hmem
      exact ⟨hres, hle, fun heq => absurd (hloop heq) hmove.pc_ne⟩
    · cases hmove with
      | abort pc le =>
        obtain rfl : n = cl.trx_num := by simpa using hmem
        exact ⟨h.restored hok pc le, Nat.le_refl _, fun _ => rfl⟩
      | _ => simp at hmem

/-- An operation on a queue pair acquires or gives back a lock word. -/
theorem balanced_serve {t : Trx} {k : ℕ} {line : ShoppingCartLine} {commit_timestamp : ℕ}
    {server server' : Server} {timestamp timestamp' : ℕ} {v : View} {g g' : Grip ItemVersion}
    {ctx' : Context} {locked unlocked : List (ℕ × Lock × Lock)}
    (h : Served t k line commit_timestamp server timestamp v g ctx' server' timestamp' es g')
    (hbalanced : Balanced line locked unlocked g) (hview : ¬(v = .writing ∨ v = .releasing))
    (hlock : ∀ w, g = .locked w commit_timestamp →
      server.lock_items_region line.SCL_I_ID = .set_lock 1 commit_timestamp) :
    Balanced line (locked ++ lockedBy es t k) (unlocked ++ unlockedBy es t k) g' := by
  cases h with
  | readTimestamp =>
    show Balanced line (locked ++ []) (unlocked ++ []) g
    rwa [List.append_nil, List.append_nil]
  | fetchAdd =>
    show Balanced line (locked ++ []) (unlocked ++ []) g
    rwa [List.append_nil, List.append_nil]
  | read _ nothing =>
    rw [nothing] at hbalanced
    have hbalanced : locked = unlocked := hbalanced
    simp [Balanced, lockedBy, unlockedBy, hbalanced]
  | acquire _ copy _ =>
    rw [copy] at hbalanced
    have hbalanced : locked = unlocked := hbalanced
    simp [Balanced, lockedBy, unlockedBy, hbalanced]
  | refuse _ copy =>
    rw [copy] at hbalanced
    have hbalanced : locked = unlocked := hbalanced
    simp [Balanced, lockedBy, unlockedBy, hbalanced]
  | @revert w _ hg =>
    have hword := hlock w hg
    rw [hg] at hbalanced
    have hbalanced : locked = _ := hbalanced
    simp [Balanced, lockedBy, unlockedBy, hbalanced, hword]
  | install view => exact absurd view hview
  | release view => exact absurd (.inr view) hview

theorem serve {k : ℕ} {server server' : Server} {timestamp timestamp' : ℕ}
    {g' : Grip ItemVersion} {ctx' : Context} (h : TraceOK trace c cl grip)
    (hserved : Served ⟨c, cl.trx_num⟩ k (cl.line k) cl.commit_timestamp server timestamp
      (cl.view k) (grip k) ctx' server' timestamp' es g')
    (hlock : ∀ w, grip k = .locked w cl.commit_timestamp →
      server.lock_items_region (cl.line k).SCL_I_ID = .set_lock 1 cl.commit_timestamp) :
    TraceOK (trace ++ es) c (cl.setCtx k ctx') (Function.update grip k g') := by
  have hother (n : ℕ) (hn : n ≠ cl.trx_num) : ∀ e ∈ es, e.trx ≠ ⟨c, n⟩ := by
    intro e he heq
    rw [hserved.trx_eq e he, Trx.mk.injEq] at heq
    exact hn heq.2.symm
  refine ⟨fun n hn i => ?_, fun hpc hnot i => ?_, fun hcommitting => ?_, fun n hn => ?_⟩
  · have htrx := hother n (Nat.ne_of_gt hn)
    rw [lockedBy_append, unlockedBy_append, lockedBy_of_trx htrx, unlockedBy_of_trx htrx,
      List.append_nil, List.append_nil]
    exact h.fresh n hn i
  · have hbalanced := h.current hpc hnot i
    rw [lockedBy_append, unlockedBy_append]
    by_cases hi : i = k
    · subst hi
      rw [Function.update_self]
      exact balanced_serve hserved hbalanced (fun hv => hnot (Client.committing_of_view hv)) hlock
    · obtain ⟨hlocked, hunlocked⟩ := hserved.locks_ne ⟨c, cl.trx_num⟩ hi
      rw [Function.update_of_ne hi]
      show Balanced _ (_ ++ lockedBy es ⟨c, cl.trx_num⟩ i) (_ ++ unlockedBy es ⟨c, cl.trx_num⟩ i) _
      rw [hlocked, hunlocked, List.append_nil, List.append_nil]
      exact hbalanced
  · exact List.mem_append_left _ (h.committed hcommitting)
  · have hmem : .aborted ⟨c, n⟩ ∈ trace := by
      obtain hmem | hmem := List.mem_append.1 hn
      · exact hmem
      · exact absurd hmem hserved.not_aborted
    obtain ⟨hrestored, hle, hloop⟩ := h.aborted n hmem
    refine ⟨fun i => ?_, hle, hloop⟩
    have hne : n ≠ cl.trx_num := by
      intro heq
      refine hserved.view_ne ?_
      simp [Client.view, PC.view, hloop heq]
    have htrx := hother n hne
    rw [lockedBy_append, unlockedBy_append, lockedBy_of_trx htrx, unlockedBy_of_trx htrx,
      List.append_nil, List.append_nil]
    exact hrestored i

end TraceOK

/-! ## Stocks -/

/-- Client `c` has committed the purchase of item `x` of server `i` and has not written it. -/
def Promised {cfg : Config} (s : State cfg) (grip : ℕ → ℕ → Grip ItemVersion) (i x c : ℕ) :
    Prop :=
  (s.clients c).Committing ∧ ∃ v t, gripOn s.line grip i x c = .locked v t

/-- The stock of item `x` of server `i`, whose initial version is `item`: it is what the committed
carts leave of it, except for a promised purchase. -/
inductive Accounted {cfg : Config} (item : ItemVersion) (s : State cfg)
    (grip : ℕ → ℕ → Grip ItemVersion) (i x : ℕ) : Prop
  | settled (none : ∀ c, ¬Promised s grip i x c)
      (stock : ((s.servers i).items_region x).I_STOCK =
        stockAfter item.I_STOCK (commitsOn s.trace i x))
  | owed {c : ℕ} (quantities : List Int32) (promised : Promised s grip i x c)
      (commits : commitsOn s.trace i x = quantities ++ [(s.line c i).SCL_QTY])
      (stock : ((s.servers i).items_region x).I_STOCK = stockAfter item.I_STOCK quantities)

section Accounted

variable {cfg : Config} {item : ItemVersion} {s s' : State cfg}
  {grip grip' : ℕ → ℕ → Grip ItemVersion} {i x c : ℕ}

theorem Promised.holds (h : Promised s grip i x c) : (gripOn s.line grip i x c).Holds := by
  obtain ⟨-, v, t, hgrip⟩ := h
  rw [hgrip]
  trivial

/-- Whoever else has the lock of an item whose purchase is promised is the one who promised it. -/
theorem MemoryOK.promised_unique (h : MemoryOK s grip) {d : ℕ} (hc : Promised s grip i x c)
    (hd : (gripOn s.line grip i x d).Holds) : d = c :=
  (h.cell i x).alone d c hd hc.holds

theorem Accounted.congr (h : Accounted item s grip i x)
    (hstock : (s'.servers i).items_region x = (s.servers i).items_region x)
    (hcommits : commitsOn s'.trace i x = commitsOn s.trace i x)
    (hpromised : ∀ c, Promised s' grip' i x c ↔ Promised s grip i x c)
    (hline : ∀ c, Promised s grip i x c → s'.line c i = s.line c i) :
    Accounted item s' grip' i x := by
  cases h with
  | settled none stock =>
    refine .settled (fun c hc => none c ((hpromised c).1 hc)) ?_
    rw [hstock, hcommits]
    exact stock
  | @owed c quantities promised commits stock =>
    refine .owed quantities ((hpromised c).2 promised) ?_ ?_
    · rw [hcommits, hline c promised]
      exact commits
    · rw [hstock]
      exact stock

end Accounted

def State.moved {cfg : Config} (s : State cfg) (c : ℕ) (cl' : Client cfg) (es : List Event) :
    State cfg :=
  { s.setClient c cl' with trace := s.trace ++ es }

section Moved

variable {cfg : Config} {item : ItemVersion} {s : State cfg} {grip : ℕ → ℕ → Grip ItemVersion}
  {i x c : ℕ} {cl' : Client cfg} {es : List Event}

theorem State.clients_moved_self : (s.moved c cl' es).clients c = cl' := Function.update_self ..

theorem State.clients_moved_ne {d : ℕ} (hd : d ≠ c) :
    (s.moved c cl' es).clients d = s.clients d :=
  Function.update_of_ne hd ..

theorem State.line_moved (es : List Event)
    (hline : ∀ i, cl'.line i = (s.clients c).line i ∨ grip c i = .none) (d i : ℕ) :
    (s.moved c cl' es).line d i = s.line d i ∨ grip d i = .none := by
  by_cases hd : d = c
  · rw [hd, State.line, State.clients_moved_self]
    exact hline i
  · rw [State.line, State.clients_moved_ne hd]
    exact .inl rfl

theorem Accounted.moved (h : Accounted item s grip i x)
    (hline : ∀ i, cl'.line i = (s.clients c).line i ∨ grip c i = .none)
    (hcommits : commitsOn es i x = []) (hcommitting : cl'.Committing → (s.clients c).Committing)
    (hcommitted : ((s.clients c).Committing → cl'.Committing) ∨ ∀ i, grip c i = .none) :
    Accounted item (s.moved c cl' es) grip i x := by
  have hgrip : gripOn (s.moved c cl' es).line grip = gripOn s.line grip :=
    gripOn_congr (State.line_moved es hline)
  refine h.congr rfl ?_ (fun d => ?_) fun d hd => ?_
  · show commitsOn (s.trace ++ es) i x = _
    rw [commitsOn_append, hcommits, List.append_nil]
  · unfold Promised
    rw [hgrip]
    by_cases hd : d = c
    · subst hd
      rw [State.clients_moved_self]
      refine ⟨fun hp => ⟨hcommitting hp.1, hp.2⟩, fun hp => ⟨?_, hp.2⟩⟩
      obtain hsame | hnone := hcommitted
      · exact hsame hp.1
      · obtain ⟨v, t, hlocked⟩ := hp.2
        simp [gripOn, hnone] at hlocked
    · rw [State.clients_moved_ne hd]
  · obtain hsame | hnone := State.line_moved es hline d i
    · exact hsame
    · obtain ⟨-, v, t, hlocked⟩ := hd
      simp [gripOn, hnone] at hlocked

theorem commitsOn_committed (cl : Client cfg) (t : Trx) : commitsOn [.committed t cl.lines] i x =
    if i < cfg.ORDERLINE_PER_ORDER ∧ (cl.line i).SCL_I_ID = x then [(cl.line i).SCL_QTY]
    else [] := by
  have hget : cl.lines[i]? = if i < cfg.ORDERLINE_PER_ORDER then some (cl.line i) else none := by
    rw [Client.lines, List.getElem?_map]
    split
    · rw [List.getElem?_range ‹_›]
      rfl
    · rw [List.getElem?_eq_none (by simp; omega)]
      rfl
  by_cases hi : i < cfg.ORDERLINE_PER_ORDER
  · by_cases hx : (cl.line i).SCL_I_ID = x <;> simp [commitsOn, hget, hi, hx]
  · simp [commitsOn, hget, hi]

/-- The commit of a transaction promises the purchase of the items of its cart, for each of which
nothing was owed because the client has the lock. -/
theorem Accounted.commit (h : Accounted item s grip i x) (hmemory : MemoryOK s grip)
    (hok : ClientOK (s.clients c) (grip c)) (hline : cl'.line = (s.clients c).line)
    (hnot : ¬(s.clients c).Committing) (hcommitting : cl'.Committing)
    (hlocked : ∀ i < cfg.ORDERLINE_PER_ORDER, grip c i =
      .locked ((s.clients c).ctx i).items_region (s.clients c).commit_timestamp) :
    Accounted item
      (s.moved c cl' [.committed ⟨c, (s.clients c).trx_num⟩ (s.clients c).lines]) grip i x := by
  generalize hs' : s.moved c cl' [.committed ⟨c, (s.clients c).trx_num⟩ (s.clients c).lines] = s'
  have htrace : s'.trace = s.trace ++
      [.committed ⟨c, (s.clients c).trx_num⟩ (s.clients c).lines] := by
    rw [← hs']
    rfl
  have hservers : s'.servers = s.servers := by
    rw [← hs']
    rfl
  have hlines : s'.line = s.line := by
    funext d i
    by_cases hd : d = c
    · rw [hd, State.line, ← hs', State.clients_moved_self, hline]
      rfl
    · rw [State.line, ← hs', State.clients_moved_ne hd]
      rfl
  have hpromised (d : ℕ) (hd : d ≠ c) : Promised s' grip i x d ↔ Promised s grip i x d := by
    unfold Promised
    rw [hlines, ← hs', State.clients_moved_ne hd]
  by_cases hix : i < cfg.ORDERLINE_PER_ORDER ∧ ((s.clients c).line i).SCL_I_ID = x
  · obtain ⟨hi, rfl⟩ := hix
    have hgrip : gripOn s.line grip i ((s.clients c).line i).SCL_I_ID c = grip c i := gripOn_self
    have hcommits : commitsOn s'.trace i ((s.clients c).line i).SCL_I_ID =
        commitsOn s.trace i ((s.clients c).line i).SCL_I_ID ++ [(s'.line c i).SCL_QTY] := by
      rw [hlines, htrace, commitsOn_append, commitsOn_committed, if_pos ⟨hi, rfl⟩]
      rfl
    cases h with
    | settled none stock =>
      refine .owed _ ⟨?_, ?_⟩ hcommits (hservers ▸ stock)
      · rw [← hs', State.clients_moved_self]
        exact hcommitting
      · rw [hlines, hgrip, hlocked i hi]
        exact ⟨_, _, rfl⟩
    | @owed d _ promised _ _ =>
      have hholds : (gripOn s.line grip i ((s.clients c).line i).SCL_I_ID c).Holds := by
        rw [hgrip, hlocked i hi]
        trivial
      obtain rfl : c = d := hmemory.promised_unique promised hholds
      exact absurd promised.1 hnot
  · refine h.congr (by rw [hservers]) ?_ (fun d => ?_) fun d _ => by rw [hlines]
    · rw [htrace, commitsOn_append, commitsOn_committed, if_neg hix, List.append_nil]
    · by_cases hd : d = c
      · subst hd
        refine iff_of_false (fun hp => ?_) fun hp => hnot hp.1
        obtain ⟨-, v, t, hgrip⟩ := hp
        rw [hlines] at hgrip
        -- the item is on no line of the cart
        unfold gripOn at hgrip
        split at hgrip
        · rename_i hx
          have hview : (s.clients d).view i = .idle := if_neg fun hi => hix ⟨hi, hx⟩
          have hstage := hok.stage i
          rw [hview, hgrip] at hstage
          cases hstage
        · cases hgrip
      · exact hpromised d hd

end Moved

section Served

variable {cfg : Config} {item : ItemVersion} {s : State cfg} {grip : ℕ → ℕ → Grip ItemVersion}
  {i x c k timestamp' : ℕ} {ctx' : Context} {server' : Server} {es : List Event}
  {g' : Grip ItemVersion}

theorem State.committing_served (d : ℕ) :
    ((s.served c k ctx' server' timestamp' es).clients d).Committing ↔
      (s.clients d).Committing := by
  by_cases hd : d = c
  · subst hd
    simp only [State.served, State.setClient, Function.update_self]
    rfl
  · simp only [State.served, State.setClient, Function.update_of_ne hd]

theorem State.trace_served : (s.served c k ctx' server' timestamp' es).trace = s.trace ++ es := rfl

theorem promised_served_ne (hix : ¬(i = k ∧ x = (s.line c k).SCL_I_ID)) (d : ℕ) :
    Promised (s.served c k ctx' server' timestamp' es)
      (Function.update grip c (Function.update (grip c) k g')) i x d ↔ Promised s grip i x d := by
  unfold Promised
  rw [State.committing_served, State.line_served, gripOn_update_ne hix]

theorem promised_served (d : ℕ) :
    Promised (s.served c k ctx' server' timestamp' es)
        (Function.update grip c (Function.update (grip c) k g')) k (s.line c k).SCL_I_ID d ↔
      (s.clients d).Committing ∧ ∃ v t, Function.update
        (gripOn s.line grip k (s.line c k).SCL_I_ID) c g' d = .locked v t := by
  unfold Promised
  rw [State.committing_served, State.line_served, gripOn_update]

/-- An operation on a queue pair makes or keeps a promise only by writing the item. -/
theorem promised_served_iff (hg : (s.clients c).Committing →
      ((∃ v t, g' = .locked v t) ↔ ∃ v t, grip c k = .locked v t)) (d : ℕ) :
    Promised (s.served c k ctx' server' timestamp' es)
        (Function.update grip c (Function.update (grip c) k g')) k (s.line c k).SCL_I_ID d ↔
      Promised s grip k (s.line c k).SCL_I_ID d := by
  rw [promised_served]
  refine and_congr_right fun hcommitting => ?_
  by_cases hd : d = c
  · subst hd
    rw [Function.update_self, gripOn_self]
    exact hg hcommitting
  · rw [Function.update_of_ne hd]

theorem Accounted.install {w : ItemVersion} {t commit_timestamp : ℕ}
    (h : Accounted item s grip k (s.line c k).SCL_I_ID) (hmemory : MemoryOK s grip)
    (hcommitting : (s.clients c).Committing) (hgrip : grip c k = .locked w t)
    (hitem : server'.items_region (s.line c k).SCL_I_ID =
      w.decrement (s.line c k).SCL_QTY commit_timestamp)
    (hg' : ¬∃ v t, g' = .locked v t) (hes : commitsOn es k (s.line c k).SCL_I_ID = []) :
    Accounted item (s.served c k ctx' server' timestamp' es)
      (Function.update grip c (Function.update (grip c) k g')) k (s.line c k).SCL_I_ID := by
  have hpromised : Promised s grip k (s.line c k).SCL_I_ID c :=
    ⟨hcommitting, w, t, gripOn_self.trans hgrip⟩
  have hvalue : (s.servers k).items_region (s.line c k).SCL_I_ID = w :=
    (hmemory.cell k _).value_eq (gripOn_self.trans hgrip)
  cases h with
  | settled none _ => exact absurd hpromised (none c)
  | @owed d quantities promised commits stock =>
    obtain rfl : c = d := hmemory.promised_unique promised hpromised.holds
    refine .settled (fun d => ?_) ?_
    · rw [promised_served]
      rintro ⟨hd, v, u, hlocked⟩
      by_cases hdc : d = c
      · rw [hdc, Function.update_self] at hlocked
        exact hg' ⟨v, u, hlocked⟩
      · rw [Function.update_of_ne hdc] at hlocked
        exact hdc (hmemory.promised_unique hpromised (by rw [hlocked]; trivial))
    · rw [State.trace_served, commitsOn_append, hes, List.append_nil, commits, stockAfter_append,
        ← stock, hvalue]
      simp only [State.served, Function.update_self, hitem]
      rfl

theorem Accounted.serve (h : Accounted item s grip i x) (hmemory : MemoryOK s grip)
    (hserved : Served ⟨c, (s.clients c).trx_num⟩ k (s.line c k) (s.clients c).commit_timestamp
      (s.servers k) s.timestamp ((s.clients c).view k) (grip c k) ctx' server' timestamp' es g') :
    Accounted item (s.served c k ctx' server' timestamp' es)
      (Function.update grip c (Function.update (grip c) k g')) i x := by
  have hcommits : commitsOn (s.served c k ctx' server' timestamp' es).trace i x =
      commitsOn s.trace i x := by
    rw [State.trace_served, commitsOn_append, hserved.commitsOn_eq, List.append_nil]
  have hline (d : ℕ) : (s.served c k ctx' server' timestamp' es).line d i = s.line d i := by
    rw [State.line_served]
  by_cases hix : i = k ∧ x = (s.line c k).SCL_I_ID
  · obtain ⟨rfl, rfl⟩ := hix
    have hduring {φ : Phase} (hview : (s.clients c).view i = φ.during) (hφ : φ ≠ .release)
        (hc : (s.clients c).Committing) : False :=
      hφ ((Client.committing_iff_of_during hview).1 hc)
    -- but for an installation neither the item nor any promise on it changes
    have hsame (hitem : server'.items_region (s.line c i).SCL_I_ID =
          (s.servers i).items_region (s.line c i).SCL_I_ID)
        (hg : (s.clients c).Committing →
          ((∃ v t, g' = .locked v t) ↔ ∃ v t, grip c i = .locked v t)) :
        Accounted item (s.served c i ctx' server' timestamp' es)
          (Function.update grip c (Function.update (grip c) i g')) i (s.line c i).SCL_I_ID := by
      refine h.congr ?_ hcommits (promised_served_iff hg) fun d _ => hline d
      simp only [State.served, Function.update_self]
      exact hitem
    cases hserved with
    | readTimestamp => exact hsame rfl fun _ => Iff.rfl
    | fetchAdd => exact hsame rfl fun _ => Iff.rfl
    | read view =>
      have view : (s.clients c).view i = Phase.during .item := view
      exact hsame rfl fun hc => (hduring view (by simp) hc).elim
    | acquire view =>
      have view : (s.clients c).view i = Phase.during .lock := view
      exact hsame rfl fun hc => (hduring view (by simp) hc).elim
    | refuse view =>
      have view : (s.clients c).view i = Phase.during .lock := view
      exact hsame rfl fun hc => (hduring view (by simp) hc).elim
    | revert view =>
      have view : (s.clients c).view i = Phase.during .revert := view
      exact hsame rfl fun hc => (hduring view (by simp) hc).elim
    | install view locked =>
      refine h.install hmemory (Client.committing_of_view view) locked
        (Function.update_self ..) ?_ rfl
      simp
    | release _ updated =>
      refine hsame rfl fun _ => ?_
      rw [updated]
      simp
  · refine h.congr ?_ hcommits (promised_served_ne hix) fun d _ => hline d
    by_cases hi : i = k
    · subst hi
      simp only [State.served, Function.update_self]
      exact congrArg Cell.value (hserved.cell_ne fun hx => hix ⟨rfl, hx⟩)
    · simp only [State.served, Function.update_of_ne hi]

end Served

/-! ## All reachable states -/

/-- Every version was computed from the version it replaced, for a committed cart. -/
def InstalledOK (trace : List Event) : Prop :=
  ∀ t i x base old new, .installed t i x base old new ∈ trace →
    base = old ∧ ∃ cart line, .committed t cart ∈ trace ∧ cart[i]? = some line ∧
      line.SCL_I_ID = x ∧ new = base.decrement line.SCL_QTY new.write_timestamp

theorem InstalledOK.append {trace es : List Event} (h : InstalledOK trace)
    (hes : ∀ t i x base old new, .installed t i x base old new ∈ es →
      base = old ∧ ∃ cart line, .committed t cart ∈ trace ∧ cart[i]? = some line ∧
        line.SCL_I_ID = x ∧ new = base.decrement line.SCL_QTY new.write_timestamp) :
    InstalledOK (trace ++ es) := by
  intro t i x base old new hmem
  have hbefore : base = old ∧ ∃ cart line, .committed t cart ∈ trace ∧ cart[i]? = some line ∧
      line.SCL_I_ID = x ∧ new = base.decrement line.SCL_QTY new.write_timestamp := by
    obtain hmem | hmem := List.mem_append.1 hmem
    · exact h t i x base old new hmem
    · exact hes t i x base old new hmem
  obtain ⟨hbase, cart, line, hcommitted, hrest⟩ := hbefore
  exact ⟨hbase, cart, line, List.mem_append_left _ hcommitted, hrest⟩

/-- The invariant of the system, when the items were `items` initially; `grip` is what the clients
have of the items of their carts. -/
structure Inv {cfg : Config} (items : ℕ → ℕ → ItemVersion) (s : State cfg)
    (grip : ℕ → ℕ → Grip ItemVersion) : Prop where
  client : ∀ c, ClientOK (s.clients c) (grip c)
  memory : MemoryOK s grip
  accounted : ∀ i x, Accounted (items i x) s grip i x
  trace : ∀ c, TraceOK s.trace c (s.clients c) (grip c)
  installed : InstalledOK s.trace

section Reachable

variable {cfg : Config} {items : ℕ → ℕ → ItemVersion} {s s' : State cfg}
  {grip : ℕ → ℕ → Grip ItemVersion} {c : ℕ}

theorem Init.inv (h : Init cfg items s) (hts : s.timestamp < 2 ^ 32) :
    Inv items s fun _ _ => .none := by
  have hgrip (i x c : ℕ) : gripOn s.line (fun _ _ => .none) i x c = .none := ite_self _
  refine ⟨fun c => ⟨fun i => ?_, ?_⟩, ⟨fun i x => ?_, fun i x => ?_, fun i x => ?_,
    fun c b hb => ?_⟩,
    fun i x => .settled (fun c hc => ?_) ?_, fun c => ⟨?_, ?_, ?_, ?_⟩, ?_⟩
  · obtain ⟨hqueue, hcompletions⟩ := h.contexts c i
    simp only [Client.view, PC.view, (h.clients c).1, ite_self]
    exact .idle hqueue hcompletions
  · simp only [Client.Won, (h.clients c).1]
  · refine ⟨fun _ => ?_, fun c => ?_, fun c c' hc => ?_⟩
    · have hlt : (items i x).write_timestamp < 2 ^ 32 :=
        Nat.lt_of_le_of_lt (h.timestamp i x) hts
      simp only [Server.cell, h.lock_items_region, h.items_region, Lock.toNat_version hlt]
    · rw [hgrip]
      trivial
    · rw [hgrip] at hc
      exact hc.elim
  · rw [h.lock_items_region]
    exact .inl rfl
  · rw [h.items_region]
    exact h.timestamp i x
  · simp [Client.Stamped, (h.clients c).1] at hb
  · obtain ⟨v, t, hlocked⟩ := hc.2
    rw [hgrip] at hlocked
    cases hlocked
  · rw [h.items_region, h.trace]
    rfl
  · simp [h.trace, lockedBy, unlockedBy]
  · intro hpc
    exact absurd (h.clients c).1 hpc
  · simp [Client.Committing, (h.clients c).1]
  · simp [h.trace]
  · simp [InstalledOK, h.trace]

theorem MemoryOK.lock_eq (h : MemoryOK s grip) {i t : ℕ} {w : ItemVersion}
    (hgrip : grip c i = .locked w t) :
    (s.servers i).lock_items_region (s.line c i).SCL_I_ID = .set_lock 1 t := by
  have hsound := (h.cell i (s.line c i).SCL_I_ID).sound c
  rw [gripOn_self, hgrip] at hsound
  obtain ⟨hlocked, hversion, -⟩ := hsound
  have hstatus := h.status i (s.line c i).SCL_I_ID
  simp only [Server.cell] at hlocked hversion
  generalize (s.servers i).lock_items_region (s.line c i).SCL_I_ID = lock at *
  obtain ⟨status, version⟩ := lock
  obtain rfl | rfl := hstatus
  · simp at hlocked
  · rw [Lock.set_lock, ← hversion, UInt32.ofNat_toNat]

theorem Inv.begin (h : Inv items s grip) {rand : ℕ → ℕ} {cl' : Client cfg}
    (hbegin : (s.clients c).begin rand = some cl') : Inv items (s.moved c cl' []) grip := by
  obtain ⟨hpc, hcl'⟩ := Client.begin_eq hbegin
  have hnone (i : ℕ) : grip c i = .none := ((h.client c).idle hpc i).2.2
  have hnot : ¬cl'.Committing := by simp [Client.Committing, hcl']
  have htrace : (s.moved c cl' []).trace = s.trace := List.append_nil _
  refine ⟨fun d => ?_, ?_, fun i x => ?_, fun d => ?_, ?_⟩
  · by_cases hd : d = c
    · rw [hd, State.clients_moved_self]
      exact (h.client c).begin hbegin
    · rw [State.clients_moved_ne hd]
      exact h.client d
  · refine h.memory.of_servers rfl rfl (State.line_moved [] fun i => .inr (hnone i))
      fun d b hb => ?_
    by_cases hd : d = c
    · rw [hd, State.clients_moved_self] at hb
      simp [Client.Stamped, hcl'] at hb
    · rwa [State.clients_moved_ne hd] at hb
  · exact (h.accounted i x).moved (fun i => .inr (hnone i)) rfl (fun hc => absurd hc hnot)
      (.inr hnone)
  · rw [htrace]
    by_cases hd : d = c
    · rw [hd, State.clients_moved_self]
      exact (h.trace c).begin (h.client c) hbegin
    · rw [State.clients_moved_ne hd]
      exact h.trace d
  · rw [htrace]
    exact h.installed

theorem Inv.moves (h : Inv items s grip) {cl' : Client cfg} {es : List Event}
    (hmove : Moves c (s.clients c) cl' es) : Inv items (s.moved c cl' es) grip := by
  have hcart := hmove.same.2
  have hline : cl'.line = (s.clients c).line := by
    funext i
    rw [Client.line, hcart]
    rfl
  refine ⟨fun d => ?_, ?_, fun i x => ?_, fun d => ?_, ?_⟩
  · by_cases hd : d = c
    · rw [hd, State.clients_moved_self]
      exact (h.client c).moves hmove
    · rw [State.clients_moved_ne hd]
      exact h.client d
  · refine h.memory.of_servers rfl rfl
      (State.line_moved es fun i => .inl (congrFun hline i)) fun d b hb => ?_
    by_cases hd : d = c
    · rw [hd, State.clients_moved_self] at hb
      rw [hd]
      exact (h.client c).stamped_moves hmove hb
    · rwa [State.clients_moved_ne hd] at hb
  · obtain ⟨rfl, hnot, hcommitting, hlocked⟩ | ⟨hcommits, hforth, hback⟩ :=
      (h.client c).committing hmove
    · exact (h.accounted i x).commit h.memory (h.client c) hline hnot hcommitting hlocked
    · exact (h.accounted i x).moved (fun i => .inl (congrFun hline i)) (hcommits i x) hforth hback
  · by_cases hd : d = c
    · rw [hd, State.clients_moved_self]
      exact (h.trace c).moves (h.client c) hmove
    · rw [State.clients_moved_ne hd]
      refine (h.trace d).append fun e he => ?_
      rw [hmove.trx_eq e he]
      exact Ne.symm hd
  · exact h.installed.append fun _ _ _ _ _ _ hmem => absurd hmem hmove.not_installed

theorem Inv.serve (h : Inv items s grip) {k timestamp' : ℕ} {ctx' : Context} {server' : Server}
    {es : List Event} (hserve : ((s.clients c).ctx k).serve ⟨c, (s.clients c).trx_num⟩ k
      (s.servers k) s.timestamp = some (ctx', server', timestamp', es))
    (hlt : timestamp' < 2 ^ 32) :
    ∃ grip', Inv items (s.served c k ctx' server' timestamp' es) grip' := by
  obtain ⟨g', hserved, hok⟩ := (h.client c).serve hserve
  have hself : (s.served c k ctx' server' timestamp' es).clients c =
      (s.clients c).setCtx k ctx' := Function.update_self ..
  have hother {d : ℕ} (hd : d ≠ c) : (s.served c k ctx' server' timestamp' es).clients d =
      s.clients d := Function.update_of_ne hd ..
  refine ⟨Function.update grip c (Function.update (grip c) k g'), fun d => ?_,
    h.memory.serve hserved hlt, fun i x => (h.accounted i x).serve h.memory hserved,
    fun d => ?_, ?_⟩
  · by_cases hd : d = c
    · rw [hd, hself, Function.update_self]
      exact hok
    · rw [hother hd, Function.update_of_ne hd]
      exact h.client d
  · by_cases hd : d = c
    · rw [hd, hself, Function.update_self]
      exact (h.trace c).serve hserved fun w hw => h.memory.lock_eq hw
    · rw [hother hd, Function.update_of_ne hd]
      refine (h.trace d).append fun e he => ?_
      rw [hserved.trx_eq e he]
      exact Ne.symm hd
  · refine h.installed.append fun t i x base old new hmem => ?_
    have hk := Client.lt_of_view hserved.view_ne
    cases hserved with
    | @install w view locked =>
      simp only [List.mem_singleton, Event.installed.injEq] at hmem
      obtain ⟨rfl, rfl, rfl, rfl, rfl, rfl⟩ := hmem
      have hvalue := (h.memory.cell i _).value_eq (gripOn_self.trans locked)
      refine ⟨hvalue.symm, _, _, (h.trace c).committed (Client.committing_of_view view), ?_, rfl,
        rfl⟩
      simp [Client.lines, hk]
    | _ => simp at hmem

theorem timestamp_le_of_step {a : Action} (h : step cfg s a = some s') :
    s.timestamp ≤ s'.timestamp := by
  cases a with
  | begin c rand =>
    obtain ⟨-, h⟩ := Option.ite_none_right_eq_some.1 h
    obtain ⟨cl, -, rfl⟩ := Option.map_eq_some_iff.1 h
    exact Nat.le_refl _
  | client c =>
    obtain ⟨-, h⟩ := Option.ite_none_right_eq_some.1 h
    obtain ⟨p, -, rfl⟩ := Option.map_eq_some_iff.1 h
    exact Nat.le_refl _
  | serve c k =>
    obtain ⟨-, h⟩ := Option.ite_none_right_eq_some.1 h
    obtain ⟨p, hp, rfl⟩ := Option.map_eq_some_iff.1 h
    exact (Context.serve_frame hp).2

theorem Inv.step {a : Action} (h : Inv items s grip) (hstep : step cfg s a = some s')
    (hlt : s'.timestamp < 2 ^ 32) : ∃ grip', Inv items s' grip' := by
  cases a with
  | begin c rand =>
    obtain ⟨-, hstep⟩ := Option.ite_none_right_eq_some.1 hstep
    obtain ⟨cl, hbegin, rfl⟩ := Option.map_eq_some_iff.1 hstep
    have hmoved : s.setClient c cl = s.moved c cl [] := by
      simp [State.moved, State.setClient]
    rw [hmoved]
    exact ⟨grip, h.begin hbegin⟩
  | client c =>
    obtain ⟨-, hstep⟩ := Option.ite_none_right_eq_some.1 hstep
    obtain ⟨⟨cl, es⟩, hnext, rfl⟩ := Option.map_eq_some_iff.1 hstep
    exact ⟨grip, h.moves (Client.next_moves hnext)⟩
  | serve c k =>
    obtain ⟨-, hstep⟩ := Option.ite_none_right_eq_some.1 hstep
    obtain ⟨⟨ctx', server', timestamp', es⟩, hserve, rfl⟩ := Option.map_eq_some_iff.1 hstep
    exact h.serve hserve hlt

theorem inv_of_reachable (h : Transition.Reachable (Init cfg items) (step cfg) s)
    (hts : s.timestamp < 2 ^ 32) : ∃ grip, Inv items s grip := by
  refine h.invariant (P := fun s => s.timestamp < 2 ^ 32 → ∃ grip, Inv items s grip)
    (fun s hs hts => ⟨_, hs.inv hts⟩) ?_ hts
  intro s a s' _ ih _ hstep hts
  obtain ⟨grip, hinv⟩ := ih (Nat.lt_of_le_of_lt (timestamp_le_of_step hstep) hts)
  exact hinv.step hstep hts

theorem Inv.noLostUpdate (h : Inv items s grip) : s.NoLostUpdate items where
  installed t i x base old new hmem := by
    obtain ⟨hbase, cart, line, hcommitted, hline, hx, hnew⟩ := h.installed t i x base old new hmem
    exact ⟨hbase, cart, line, hcommitted, hline, hx, congrArg ItemVersion.I_STOCK hnew⟩
  aborted t ht := ((h.trace t.client).aborted t.number ht).1
  version i x hfree := by
    have hcell := (h.memory.cell i x).free
    simp only [Server.cell, hfree, bne_self_eq_false, true_implies] at hcell
    exact hcell
  stock i x hfree := by
    have hlocked : ((s.servers i).cell x).locked = false := by simp [Server.cell, hfree]
    cases h.accounted i x with
    | settled _ stock => exact stock
    | @owed c _ promised _ _ =>
      exact absurd promised.holds ((h.memory.cell i x).not_holds hlocked c)

end Reachable

/-- **No update is lost.** In every state of every run of any number of clients, as long as commit
timestamps are below `2 ^ 32`. -/
theorem no_purchase_lost (cfg : Config) (items : ℕ → ℕ → ItemVersion) {s : State cfg}
    (h : Transition.Reachable (Init cfg items) (step cfg) s) (hts : s.timestamp < 2 ^ 32) :
    s.NoLostUpdate items := by
  obtain ⟨grip, hinv⟩ := inv_of_reachable h hts
  exact hinv.noLostUpdate

def twoClients : Config := ⟨2, 1, 2, 2, by decide, by decide⟩

/-- Both clients read the first item of the first server. Client 0 buys it; client 1 acquires the
lock of its item on the second server only, and gives it back. -/
def contention : List Action :=
  let client (c n : ℕ) := List.replicate n (Action.client c)
  let serve (c n : ℕ) := List.replicate n (.serve c 0) ++ List.replicate n (.serve c 1)
  let read (c : ℕ) (rand : ℕ → ℕ) := [.begin c rand, .serve c 0] ++ client c 4 ++ serve c 1
  let lock (c : ℕ) := client c 3 ++ [.serve c 0] ++ client c 4 ++ serve c 1 ++ client c 3
  read 0 (fun _ => 0) ++ read 1 (· / 2) ++ lock 0 ++ client 0 6 ++ serve 0 2 ++ client 0 3 ++
    lock 1 ++ client 1 3 ++ [.serve 1 1] ++ client 1 3

/-- A system with fifty of each item. -/
def State.loaded : State twoClients where
  timestamp := 0
  servers _ := ⟨fun _ => ⟨0, 50⟩, fun _ => .set_lock 0 0⟩
  clients _ := ⟨.loop, 0, fill_shopping_cart _ fun _ => 0,
    fun _ => ⟨[], 0, 0, 0, ⟨0, 0⟩, .set_lock 0 0, .set_lock 0 0, false⟩, 0, 0, false⟩
  trace := []

set_option maxRecDepth 100000 in
theorem no_purchase_lost_contention :
    ∃ s, Transition.Reachable (Init twoClients fun _ _ => ⟨0, 50⟩) (step twoClients) s ∧
      (s.timestamp < 2 ^ 32 ∧ .committed ⟨0, 1⟩ [⟨0, 1⟩, ⟨2, 1⟩] ∈ s.trace ∧
        .aborted ⟨1, 1⟩ ∈ s.trace ∧ lockedBy s.trace ⟨1, 1⟩ 1 ≠ []) ∧
      s.NoLostUpdate fun _ _ => ⟨0, 50⟩ := by
  have hinit : Init twoClients (fun _ _ => ⟨0, 50⟩) State.loaded :=
    ⟨fun _ => ⟨rfl, rfl⟩, fun _ _ => ⟨rfl, rfl⟩, fun _ => rfl, fun _ _ => rfl,
      fun _ _ => Nat.le_refl _, rfl⟩
  obtain ⟨s, hs, hreached⟩ := Transition.exists_reachableBy (step twoClients) (fun _ _ => True)
    hinit contention (fun s => s.timestamp < 2 ^ 32 ∧
      .committed ⟨0, 1⟩ [⟨0, 1⟩, ⟨2, 1⟩] ∈ s.trace ∧ .aborted ⟨1, 1⟩ ∈ s.trace ∧
        lockedBy s.trace ⟨1, 1⟩ 1 ≠ []) (by decide +kernel)
  exact ⟨s, hs, hreached, no_purchase_lost twoClients _ hs hreached.1⟩

end RdmaSnapshot.TPCW.RSI
