import RdmaSnapshot.TPCW.Connection

/-!
# Operations of the transaction manager

What an operation of a thread of the transaction manager means for its connections: it acts on at
most one of them and leaves the others where they are.
-/

namespace RdmaSnapshot.TPCW.TwoSided

/-! ## Operations of the transaction manager -/

/-- The same place in the protocol, seen from resource manager `j`. -/
structure SamePlace (tm tm' : TrxManager) (j : ℕ) : Prop where
  trx_num : tm'.trx_num = tm.trx_num
  line : tm'.line j = tm.line j
  lock_request : tm'.lock_request j = tm.lock_request j
  successful : tm'.successful_locking_servers j = tm.successful_locking_servers j
  view : tm'.view j = tm.view j
  asks : tm'.asks j = tm.asks j
  opened : tm'.opened j = tm.opened j
  closed : tm'.closed j = tm.closed j
  closing : tm'.Closing j → tm.Closing j ∧ tm'.writeData j = tm.writeData j
  /-- The abort flag is cleared only before the first lock response and then only set. -/
  refused : tm.view j = .gotLock → tm.abort_flag = true → tm'.abort_flag = true
  deciding : tm.Deciding → tm'.Deciding ∧ tm'.abort_flag = tm.abort_flag

/-- What one operation of the thread that serves client `c` does to its variables and its
connections. -/
inductive Moves (cfg : Config) (c : ℕ) (tm : TrxManager) (ls : ℕ → Link) :
    TrxManager → (ℕ → Link) → List Event → Prop
  | submit {cart : List ShoppingCartLine} (pc : tm.pc = .readCommitRequest)
      (count : tm.trx_num < cfg.TRANSACTION_CNT) (length : cart.length = cfg.SERVER_CNT) :
      Moves cfg c tm ls
        { tm with pc := .write .itemInfo 0, trx_num := tm.trx_num + 1, cart := cart } ls []
  | ask {t : Round} {i : ℕ} (hi : i < cfg.SERVER_CNT) (pc : tm.pc = .write t i) :
      Moves cfg c tm ls (tm.asked t i)
        (Function.update ls i ((ls i).push tm.trx_num (tm.request t i)))
        (if t = .writeData then [.sent ⟨c, tm.trx_num⟩ i (tm.writeData i)] else [])
  | leave {tm' : TrxManager} (pc : tm.pc ≠ .readCommitRequest)
      (pc' : tm'.pc ≠ .readCommitRequest) (cart : tm'.cart = tm.cart)
      (trx_num : tm'.trx_num = tm.trx_num) (same : ∀ j < cfg.SERVER_CNT, SamePlace tm tm' j) :
      Moves cfg c tm ls tm' ls []
  | itemInfo {i : ℕ} {v : ItemVersion} {responses : List Response} (hi : i < cfg.SERVER_CNT)
      (pc : tm.pc = .readItemInfo i) (read : (ls i).responses = .itemInfo v :: responses) :
      Moves cfg c tm ls { tm with pc := .readItemInfo (i + 1) }
        (Function.update ls i { ls i with responses := responses }) []
  | lock {i : ℕ} {ok : Bool} {responses : List Response} (hi : i < cfg.SERVER_CNT)
      (pc : tm.pc = .readLock i) (read : (ls i).responses = .lock ok :: responses) :
      Moves cfg c tm ls (tm.lockResponse i ok)
        (Function.update ls i { ls i with responses := responses }) []
  | answer (pc : tm.pc = .writeCommitResponse) :
      Moves cfg c tm ls { tm with pc := .readCommitRequest } ls
        [.answered ⟨c, tm.trx_num⟩ tm.cart (commitOutcome tm.abort_flag)]

def State.after (s : State) (c : ℕ) (timestamp : UInt64) (tm : TrxManager) (ls : ℕ → Link)
    (es : List Event) : State :=
  ⟨timestamp, Function.update s.managers c tm, Function.update s.links c ls, s.resManagers,
    s.trace ++ es⟩

section Leave

variable {cfg : Config} {tm : TrxManager} {i j : ℕ}

/-! The exits of the five loops. -/

theorem SamePlace.of_sent_itemInfo (hpc : tm.pc = .write .itemInfo i) (hj : j < i) :
    SamePlace tm { tm with pc := .readItemInfo 0 } j := by
  constructor <;> simp [TrxManager.view, TrxManager.asks, TrxManager.opened, TrxManager.closed,
    TrxManager.Closing, TrxManager.Deciding, TrxManager.line, Round.next, hpc, hj]

theorem SamePlace.of_read_itemInfo {ts : UInt64} (hpc : tm.pc = .readItemInfo i) (hj : j < i) :
    SamePlace tm { tm with pc := .write .lock 0, commit_timestamp := ts } j := by
  constructor <;> simp [TrxManager.view, TrxManager.asks, TrxManager.opened, TrxManager.closed,
    TrxManager.Closing, TrxManager.Deciding, TrxManager.line, hpc, hj]

theorem SamePlace.of_sent_lock (hpc : tm.pc = .write .lock i) (hj : j < i) :
    SamePlace tm { tm with pc := .readLock 0, abort_flag := false } j := by
  constructor <;> simp [TrxManager.view, TrxManager.asks, TrxManager.opened, TrxManager.closed,
    TrxManager.Closing, TrxManager.Deciding, TrxManager.line, Round.next, hpc, hj]

theorem SamePlace.of_read_lock (hpc : tm.pc = .readLock i) (hj : j < i) :
    SamePlace tm { tm with pc := .write .writeData 0 } j := by
  constructor <;> simp [TrxManager.view, TrxManager.asks, TrxManager.opened, TrxManager.closed,
    TrxManager.Closing, TrxManager.Deciding, TrxManager.line, hpc, hj]

theorem SamePlace.of_sent_writeData (hpc : tm.pc = .write .writeData i) (hj : j < i) :
    SamePlace tm { tm with pc := .writeCommitResponse } j := by
  constructor <;> simp [TrxManager.view, TrxManager.asks, TrxManager.opened, TrxManager.closed,
    TrxManager.Closing, TrxManager.Deciding, TrxManager.line, TrxManager.writeData, Round.next,
    hpc, hj]

end Leave

theorem exists_leave {cfg : Config} {c : ℕ} {s : State} {timestamp : UInt64} {tm' : TrxManager}
    (hpc : (s.managers c).pc ≠ .readCommitRequest) (hpc' : tm'.pc ≠ .readCommitRequest)
    (hcart : tm'.cart = (s.managers c).cart) (htrx_num : tm'.trx_num = (s.managers c).trx_num)
    (hsame : ∀ j < cfg.SERVER_CNT, SamePlace (s.managers c) tm' j) :
    ∃ ts tm'' ls' es, Moves cfg c (s.managers c) (s.links c) tm'' ls' es ∧
      { s with timestamp := timestamp }.setManager c tm' = s.after c ts tm'' ls' es :=
  ⟨timestamp, tm', s.links c, [], .leave hpc hpc' hcart htrx_num hsame,
    by simp [State.setManager, State.after]⟩

theorem manager_moves {cfg : Config} {c : ℕ} {s s' : State} (h : s.manager cfg c = some s') :
    ∃ timestamp tm' ls' es, Moves cfg c (s.managers c) (s.links c) tm' ls' es ∧
      s' = s.after c timestamp tm' ls' es := by
  simp only [State.manager] at h
  split at h
  case h_1 => cases h
  case h_2 t i hpc =>
    split at h
    · rename_i hi
      cases h
      exact ⟨_, _, _, _, .ask hi hpc, rfl⟩
    · rename_i hi
      have hpc' : (s.managers c).pc ≠ .readCommitRequest := by simp [hpc]
      cases t with
      | itemInfo =>
        cases h
        exact exists_leave hpc' (by simp) rfl rfl fun j hj => .of_sent_itemInfo hpc (by omega)
      | lock =>
        cases h
        exact exists_leave hpc' (by simp) rfl rfl fun j hj => .of_sent_lock hpc (by omega)
      | writeData =>
        cases h
        exact exists_leave hpc' (by simp) rfl rfl fun j hj => .of_sent_writeData hpc (by omega)
  case h_3 i hpc =>
    split at h
    · rename_i hi
      split at h
      · rename_i v responses hresponses
        cases h
        exact ⟨s.timestamp, _, _, _, .itemInfo hi hpc hresponses,
          by simp [State.after, State.setManager, State.setLink]⟩
      · cases h
    · rename_i hi
      have hpc' : (s.managers c).pc ≠ .readCommitRequest := by simp [hpc]
      cases h
      exact exists_leave hpc' (by simp) rfl rfl fun j hj => .of_read_itemInfo hpc (by omega)
  case h_4 i hpc =>
    split at h
    · rename_i hi
      split at h
      · rename_i ok responses hresponses
        cases h
        exact ⟨s.timestamp, _, _, _, .lock hi hpc hresponses,
          by simp [State.after, State.setManager, State.setLink]⟩
      · cases h
    · rename_i hi
      have hpc' : (s.managers c).pc ≠ .readCommitRequest := by simp [hpc]
      cases h
      exact exists_leave hpc' (by simp) rfl rfl fun j hj => .of_read_lock hpc (by omega)
  case h_5 hpc =>
    cases h
    exact ⟨s.timestamp, _, _, _, .answer hpc, by simp [State.after, State.setManager, State.log]⟩

section Manager

variable {cfg : Config} {c i j : ℕ} {tm tm' : TrxManager} {l : Link} {es trace : List Event}

/-! An operation on one connection leaves the others where they are. -/

theorem SamePlace.of_ask {t : Round} (hpc : tm.pc = .write t i) (hj : j ≠ i) :
    SamePlace tm (tm.asked t i) j := by
  have hlt : j < i + 1 ↔ j < i := by omega
  have hlock : (tm.asked t i).lock_request j = tm.lock_request j := by
    simp only [TrxManager.asked]
    split
    · exact Function.update_of_ne hj ..
    · rfl
  constructor
  case lock_request => exact hlock
  case view => cases t <;> simp [TrxManager.view, TrxManager.asked, hpc, hlt]
  case asks => simp [TrxManager.asks, TrxManager.asked, hpc, hlt]
  case opened => cases t <;> simp [TrxManager.opened, TrxManager.asked, hpc, hlt]
  case closed => cases t <;> simp [TrxManager.closed, TrxManager.asked, hpc, hlt]
  case closing =>
    intro h
    refine ⟨?_, ?_⟩
    · cases t with
      | writeData => simpa [TrxManager.Closing, TrxManager.asked, hpc, hlt] using h
      | _ => simp [TrxManager.Closing, TrxManager.asked] at h
    · simp only [TrxManager.writeData, hlock]
      rfl
  case refused => exact fun _ h => h
  case deciding =>
    intro h
    obtain rfl : t = .writeData := by simpa [TrxManager.Deciding, hpc] using h
    exact ⟨.inl ⟨_, rfl⟩, rfl⟩
  all_goals rfl

theorem SamePlace.of_itemInfo (hpc : tm.pc = .readItemInfo i) (hj : j ≠ i) :
    SamePlace tm { tm with pc := .readItemInfo (i + 1) } j := by
  have hlt : j < i + 1 ↔ j < i := by omega
  constructor <;> simp [TrxManager.view, TrxManager.asks, TrxManager.opened, TrxManager.closed,
    TrxManager.Closing, TrxManager.Deciding, TrxManager.line, hpc, hlt]

theorem SamePlace.of_lockResponse {ok : Bool} (hpc : tm.pc = .readLock i) (hj : j ≠ i) :
    SamePlace tm (tm.lockResponse i ok) j := by
  have hlt : j < i + 1 ↔ j < i := by omega
  constructor
  case refused =>
    intro _ h
    simp [TrxManager.lockResponse, h]
  all_goals simp [TrxManager.lockResponse, TrxManager.view, TrxManager.asks, TrxManager.opened,
    TrxManager.closed, TrxManager.Closing, TrxManager.Deciding, TrxManager.line, hpc, hlt, hj]

theorem LinkOK.samePlace (h : LinkOK c tm j l trace) (hsame : SamePlace tm tm' j)
    (hsent : sentTo es c j = []) (hinstalls : installsOf es c j = []) :
    LinkOK c tm' j l (trace ++ es) := by
  constructor
  case shape =>
    rw [hsame.trx_num, hsame.line, hsame.view]
    exact h.shape
  case follows => rw [hsame.asks]; exact h.follows
  case opened => rw [hsame.opened]; exact h.opened
  case closed => rw [sentTo_append, hsent, List.append_nil, hsame.closed]; exact h.closed
  case installs =>
    rw [sentTo_append, hsent, List.append_nil, installsOf_append, hinstalls, List.append_nil]
    exact h.installs
  case lock_request =>
    rw [hsame.view, hsame.lock_request, hsame.line]
    exact h.lock_request
  case refused =>
    rw [hsame.view, hsame.successful]
    exact fun hv hs => hsame.refused hv (h.refused hv hs)
  case closing =>
    intro hclosing
    obtain ⟨hclosing, hwriteData⟩ := hsame.closing hclosing
    rw [sentTo_append, hsent, List.append_nil, hsame.trx_num, hwriteData]
    exact h.closing hclosing
  case committed =>
    rw [sentTo_append, hsent, List.append_nil, hsame.trx_num]
    intro p hp hinstall
    rcases h.committed p hp hinstall with ⟨cart, hcart⟩ | ⟨hnum, habort, hdeciding⟩
    · exact .inl ⟨cart, List.mem_append_left _ hcart⟩
    · obtain ⟨hdeciding', habort'⟩ := hsame.deciding hdeciding
      exact .inr ⟨hnum, habort'.trans habort, hdeciding'⟩

theorem SamePlace.held (hsame : SamePlace tm tm' j) : heldLocks tm' j l = heldLocks tm j l := by
  rw [heldLocks, heldLocks, hsame.view, hsame.successful, hsame.trx_num,
    hsame.lock_request]

/-! Operations on the connection itself. -/

@[simp] theorem Link.todo_push (n : ℕ) (r : Request) :
    (l.push n r).todo = l.todo ++ [(n, .request r)] := by
  simp [Link.push, Link.todo, Link.doing]

@[simp] theorem Link.toInstall_push (n : ℕ) (r : Request) : (l.push n r).toInstall =
    l.toInstall ++ ((Task.request r).install.map fun v => (n, v)).toList := by
  cases h : (Task.request r).install <;> simp [Link.toInstall, h]

@[simp] theorem Link.openings_push (n : ℕ) (r : Request) : (l.push n r).openings =
    l.openings + if r.round = .itemInfo then 1 else 0 := by
  simp [Link.push, Link.openings]

@[simp] theorem Link.trx_num_push (n : ℕ) (r : Request) : (l.push n r).trx_num = l.trx_num := rfl

@[simp] theorem Link.responses_push (n : ℕ) (r : Request) :
    (l.push n r).responses = l.responses := rfl

theorem LinkOK.answered (h : LinkOK c tm j l trace) (hnot : ¬ tm.Deciding) :
    ∀ p ∈ sentTo trace c j, install p.2 ≠ none →
      (∃ cart, .answered ⟨c, p.1⟩ cart .COMMITTED ∈ trace) ∨
        p.1 = tm'.trx_num ∧ tm'.abort_flag = false ∧ tm'.Deciding := by
  intro p hp hinstall
  rcases h.committed p hp hinstall with hcart | ⟨-, -, hdeciding⟩
  · exact .inl hcart
  · exact absurd hdeciding hnot

theorem request_round (t : Round) : (tm.request t i).round = t := by cases t <;> rfl

section

variable (h : LinkOK c tm i l trace)

include h

theorem LinkOK.ask_follows {t : Round} (hpc : tm.pc = .write t i) :
    Follows (l.push tm.trx_num (tm.request t i)).expects
      (l.push tm.trx_num (tm.request t i)).requests ((tm.asked t i).asks i) := by
  have hfollows := h.follows
  simp only [TrxManager.asks, hpc, lt_irrefl, if_false] at hfollows
  have hasks : (tm.asked t i).asks i = t.next := by simp [TrxManager.asks, TrxManager.asked]
  rw [hasks]
  exact hfollows.append (request_round t)

theorem LinkOK.ask_itemInfo (hpc : tm.pc = .write .itemInfo i) (hn : 1 ≤ tm.trx_num) :
    LinkOK c (tm.asked .itemInfo i) i (l.push tm.trx_num (tm.request .itemInfo i)) trace := by
  have hview : tm.view i = .quiet := by simp [TrxManager.view, hpc]
  have hshape := h.shape
  rw [hview] at hshape
  constructor
  case shape =>
    simp only [TrxManager.view, TrxManager.asked, Nat.lt_succ_self, if_true]
    exact .inl ⟨l.todo, hshape.1, Link.todo_push .., hshape.2⟩
  case follows => exact h.ask_follows hpc
  case opened =>
    have hopened := h.opened
    simp only [TrxManager.opened, hpc, lt_irrefl, if_false] at hopened
    simp only [TrxManager.opened, TrxManager.asked, Link.openings_push, Link.trx_num_push,
      request_round, Nat.lt_succ_self, if_true]
    omega
  case closed => simpa [TrxManager.closed, TrxManager.asked, hpc] using h.closed
  case installs => simpa [Task.install, TrxManager.request] using h.installs
  case lock_request => simp [TrxManager.view, TrxManager.asked]
  case refused => simp [TrxManager.view, TrxManager.asked]
  case closing => simp [TrxManager.Closing, TrxManager.asked]
  case committed => exact h.answered (by simp [TrxManager.Deciding, hpc])

theorem LinkOK.ask_lock (hpc : tm.pc = .write .lock i) :
    LinkOK c (tm.asked .lock i) i (l.push tm.trx_num (tm.request .lock i)) trace := by
  have hview : tm.view i = .gotItem := by simp [TrxManager.view, hpc]
  have hshape := h.shape
  rw [hview] at hshape
  constructor
  case shape =>
    simp only [TrxManager.view, TrxManager.asked, Nat.lt_succ_self, if_true]
    exact .inl ⟨by rw [Link.todo_push, hshape.1]; rfl, hshape.2⟩
  case follows => exact h.ask_follows hpc
  case opened => simpa [TrxManager.opened, TrxManager.asked, hpc, request_round] using h.opened
  case closed => simpa [TrxManager.closed, TrxManager.asked, hpc] using h.closed
  case installs => simpa [Task.install, TrxManager.request] using h.installs
  case lock_request =>
    intro _
    simp [TrxManager.asked, TrxManager.line]
  case refused => simp [TrxManager.view, TrxManager.asked]
  case closing => simp [TrxManager.Closing, TrxManager.asked]
  case committed => exact h.answered (by simp [TrxManager.Deciding, hpc])

theorem LinkOK.ask_writeData (hpc : tm.pc = .write .writeData i) (hn : 1 ≤ tm.trx_num) :
    LinkOK c (tm.asked .writeData i) i (l.push tm.trx_num (tm.request .writeData i))
      (trace ++ [.sent ⟨c, tm.trx_num⟩ i (tm.writeData i)]) := by
  have hview : tm.view i = .gotLock := by simp [TrxManager.view, hpc]
  have hshape := h.shape
  rw [hview] at hshape
  have hsent : sentTo [.sent ⟨c, tm.trx_num⟩ i (tm.writeData i)] c i =
      [(tm.trx_num, tm.writeData i)] := by
    simp [sentTo]
  constructor
  case shape =>
    simp only [TrxManager.view, TrxManager.asked, Nat.lt_succ_self, if_true]
    exact ⟨.inr ⟨_, .request (.writeData _), trivial, by rw [Link.todo_push, hshape.1]; rfl⟩,
      hshape.2⟩
  case follows => exact h.ask_follows hpc
  case opened => simpa [TrxManager.opened, TrxManager.asked, hpc, request_round] using h.opened
  case closed =>
    have hclosed := h.closed
    simp only [TrxManager.closed, hpc, lt_irrefl, if_false] at hclosed
    simp only [TrxManager.closed, TrxManager.asked, Nat.lt_succ_self, if_true, sentTo_append, hsent,
      List.map_append, hclosed]
    obtain ⟨n, hn'⟩ : ∃ n, tm.trx_num = n + 1 := ⟨tm.trx_num - 1, by omega⟩
    rw [hn', List.range'_concat]
    simp [Nat.add_comm]
  case installs =>
    have hinstalls : installsOf [.sent ⟨c, tm.trx_num⟩ i (tm.writeData i)] c i = [] := rfl
    rw [sentTo_append, hsent, installsOf_append, hinstalls, List.append_nil, Link.toInstall_push,
      ← List.append_assoc, h.installs, List.filterMap_append]
    cases hr : install (tm.writeData i) <;> simp [TrxManager.request, Task.install, hr]
  case lock_request => simp [TrxManager.view, TrxManager.asked]
  case refused => simp [TrxManager.view, TrxManager.asked]
  case closing =>
    intro _
    rw [sentTo_append, hsent]
    exact List.mem_append_right _ (List.mem_singleton.2 rfl)
  case committed =>
    intro p hp hinstall
    rw [sentTo_append, hsent, List.mem_append, List.mem_singleton] at hp
    rcases hp with hp | rfl
    · rcases h.committed p hp hinstall with ⟨cart, hcart⟩ | ⟨hnum, habort, -⟩
      · exact .inl ⟨cart, List.mem_append_left _ hcart⟩
      · exact .inr ⟨hnum, habort, .inl ⟨_, rfl⟩⟩
    · refine .inr ⟨rfl, ?_, .inl ⟨_, rfl⟩⟩
      cases habort : tm.abort_flag
      · exact habort
      · cases hs : tm.successful_locking_servers i <;>
          simp [TrxManager.writeData, writeDataRequest, habort, hs, install] at hinstall

theorem LinkOK.read_itemInfo {v : ItemVersion} {responses : List Response}
    (hpc : tm.pc = .readItemInfo i)
    (hread : l.responses = .itemInfo v :: responses) :
    LinkOK c { tm with pc := .readItemInfo (i + 1) } i { l with responses := responses } trace := by
  have hview : tm.view i = .askedItem := by simp [TrxManager.view, hpc]
  have hshape := h.shape
  rw [hview] at hshape
  obtain ⟨-, -, -, hnil⟩ | ⟨htodo, v', hresponses⟩ := hshape
  · simp [hread] at hnil
  obtain rfl : responses = [] := by simp_all
  constructor
  case shape =>
    simp only [TrxManager.view, Nat.lt_succ_self, if_true]
    exact ⟨htodo, rfl⟩
  case follows =>
    have hfollows := h.follows
    simp only [TrxManager.asks, hpc] at hfollows
    exact hfollows
  case opened =>
    have hopened := h.opened
    simp only [TrxManager.opened, hpc] at hopened
    exact hopened
  case closed => simpa [TrxManager.closed, hpc] using h.closed
  case installs => exact h.installs
  case lock_request => simp [TrxManager.view]
  case refused => simp [TrxManager.view]
  case closing => simp [TrxManager.Closing]
  case committed => exact h.answered (by simp [TrxManager.Deciding, hpc])

theorem LinkOK.read_lock {ok : Bool} {responses : List Response}
    (hpc : tm.pc = .readLock i) (hread : l.responses = .lock ok :: responses) :
    LinkOK c (tm.lockResponse i ok) i { l with responses := responses } trace := by
  have hview : tm.view i = .askedLock := by simp [TrxManager.view, hpc]
  have hshape := h.shape
  rw [hview] at hshape
  obtain ⟨-, hnil⟩ | ⟨htodo, ok', hresponses⟩ := hshape
  · simp [hread] at hnil
  obtain rfl : responses = [] := by simp_all
  constructor
  case shape =>
    simp only [TrxManager.view, TrxManager.lockResponse, Nat.lt_succ_self, if_true]
    exact ⟨htodo, rfl⟩
  case follows =>
    have hfollows := h.follows
    simp only [TrxManager.asks, hpc] at hfollows
    exact hfollows
  case opened =>
    have hopened := h.opened
    simp only [TrxManager.opened, hpc] at hopened
    exact hopened
  case closed => simpa [TrxManager.closed, TrxManager.lockResponse, hpc] using h.closed
  case installs => exact h.installs
  case lock_request => exact fun _ => h.lock_request (.inl hview)
  case refused =>
    intro _ hok
    have : ok = false := by simpa [TrxManager.lockResponse] using hok
    simp [TrxManager.lockResponse, this]
  case closing => simp [TrxManager.Closing, TrxManager.lockResponse]
  case committed => exact h.answered (by simp [TrxManager.Deciding, hpc])

theorem LinkOK.submit {cart : List ShoppingCartLine} (hpc : tm.pc = .readCommitRequest) :
    LinkOK c { tm with pc := .write .itemInfo 0, trx_num := tm.trx_num + 1, cart := cart } i l
      trace := by
  have hshape := h.shape
  simp only [TrxManager.view, hpc] at hshape
  constructor
  case shape => exact hshape
  case follows => simpa [TrxManager.asks, hpc] using h.follows
  case opened => simpa [TrxManager.opened, hpc] using h.opened
  case closed => simpa [TrxManager.closed, hpc] using h.closed
  case installs => exact h.installs
  case lock_request => simp [TrxManager.view]
  case refused => simp [TrxManager.view]
  case closing => simp [TrxManager.Closing]
  case committed => exact h.answered (by simp [TrxManager.Deciding, hpc])

theorem LinkOK.answer (hpc : tm.pc = .writeCommitResponse) :
    LinkOK c { tm with pc := .readCommitRequest } i l
      (trace ++ [.answered ⟨c, tm.trx_num⟩ tm.cart (commitOutcome tm.abort_flag)]) := by
  have hsent : sentTo [.answered ⟨c, tm.trx_num⟩ tm.cart (commitOutcome tm.abort_flag)] c i = [] :=
    rfl
  have hinstalls :
      installsOf [.answered ⟨c, tm.trx_num⟩ tm.cart (commitOutcome tm.abort_flag)] c i = [] :=
    rfl
  constructor
  case shape =>
    have hshape := h.shape
    simp only [TrxManager.view, hpc] at hshape
    exact hshape
  case follows => simpa [TrxManager.asks, hpc] using h.follows
  case opened => simpa [TrxManager.opened, hpc] using h.opened
  case closed => simpa [TrxManager.closed, hpc, hsent] using h.closed
  case installs => simpa [hsent, hinstalls] using h.installs
  case lock_request => simp [TrxManager.view]
  case refused => simp [TrxManager.view]
  case closing => simp [TrxManager.Closing]
  case committed =>
    rw [sentTo_append, hsent, List.append_nil]
    intro p hp hinstall
    rcases h.committed p hp hinstall with ⟨cart, hcart⟩ | ⟨hnum, habort, -⟩
    · exact .inl ⟨cart, List.mem_append_left _ hcart⟩
    · refine .inl ⟨tm.cart, List.mem_append_right _ ?_⟩
      rw [hnum, habort]
      exact List.mem_singleton.2 rfl

end

theorem held_moves {ls ls' : ℕ → Link} (h : Moves cfg c tm ls tm' ls' es)
    (hl : LinkOK c tm j (ls j) trace) (hj : j < cfg.SERVER_CNT) :
    heldLocks tm' j (ls' j) = heldLocks tm j (ls j) := by
  have hshape := hl.shape
  cases h with
  | submit pc _ _ =>
    simp only [TrxManager.view, pc] at hshape
    simp [heldLocks, hshape.2, TrxManager.view, pc]
  | @ask t i hi pc =>
    by_cases hji : j = i
    · subst hji
      rw [Function.update_self]
      cases t with
      | itemInfo =>
        simp only [TrxManager.view, pc, lt_irrefl, if_false] at hshape
        simp [heldLocks, hshape.2, TrxManager.view, TrxManager.asked, TrxManager.request, pc]
      | lock =>
        simp only [TrxManager.view, pc, lt_irrefl, if_false] at hshape
        simp [heldLocks, hshape.1, hshape.2, TrxManager.view, TrxManager.asked,
          TrxManager.request, pc]
      | writeData =>
        have hview : tm.view j = .gotLock := by simp [TrxManager.view, pc]
        have hlock := hl.lock_request (.inr hview)
        have hrefused := hl.refused hview
        rw [hview] at hshape
        cases hs : tm.successful_locking_servers j <;> cases ha : tm.abort_flag <;>
          simp_all [heldLocks, hshape.1, hshape.2, TrxManager.view, TrxManager.asked,
            TrxManager.request, TrxManager.writeData, writeDataRequest, Task.lock]
    · rw [Function.update_of_ne hji]
      exact (SamePlace.of_ask pc hji).held
  | leave _ _ _ _ same => exact (same j hj).held
  | @itemInfo i v responses hi pc read =>
    by_cases hji : j = i
    · subst hji
      rw [Function.update_self]
      simp [heldLocks, read, Link.todo, Link.doing, TrxManager.view, pc]
    · rw [Function.update_of_ne hji]
      exact (SamePlace.of_itemInfo pc hji).held
  | @lock i ok responses hi pc read =>
    by_cases hji : j = i
    · subst hji
      rw [Function.update_self]
      simp only [TrxManager.view, pc, lt_irrefl, if_false] at hshape
      obtain ⟨-, hnil⟩ | ⟨htodo, ok', hresponses⟩ := hshape
      · simp [read] at hnil
      · obtain rfl : responses = [] := by simp_all
        have htodo' : Link.todo { ls j with responses := [] } = [] := htodo
        cases ok <;> simp [heldLocks, read, htodo, htodo', TrxManager.view, pc,
          TrxManager.lockResponse]
    · rw [Function.update_of_ne hji]
      exact (SamePlace.of_lockResponse pc hji).held
  | answer pc =>
    simp only [TrxManager.view, pc] at hshape
    simp [heldLocks, hshape.2, TrxManager.view, pc]

end Manager

end RdmaSnapshot.TPCW.TwoSided
