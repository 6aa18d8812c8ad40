import RdmaSnapshot.Isolation
import RdmaSnapshot.CustomerLookup
import RdmaSnapshot.CustomerData
import RdmaSnapshot.Steps.Payment

/-!
# The effect of a Payment

What a Payment that is executed in isolation and commits leaves in the servers' memory, compared
with what it is meant to leave there.
-/

namespace RdmaSnapshot.PaymentTransaction

open DBExecutor

variable {cfg : Config} {s s' s₀ s₁ : State} {c : ClientID} {cl cl' : Client} {cart : PaymentCart}
  {answer : IndexAnswer} {cID cts : UInt32} {v : Verb} {k : Key} {o : Owner} {l : CpuLabel}
  {events : List Event} {posted : List Verb}

/-! ## What a Payment is meant to do -/

/-- The customer `doOne` goes on with: the one in the cart; or the one in the response buffer it
looks at, where the index of the resident warehouse's server has answered `answer`. -/
def customerID (cfg : Config) (cl : Client) (cart : PaymentCart) (answer : IndexAnswer) :
    Option UInt32 :=
  match cart.customerSelectionMode with
  | .ID => some cart.cID
  | .LAST_NAME =>
    let resp := Function.update cl.customerNameResp (askedServer cfg cart) answer.customerName
      (cfg.getServerNum cart.wID)
    if resp.isSuccessful then some resp.cID else none

/-- What a Payment by customer `cID` that commits is meant to change: from `s₀` to `s`, with
`events` in between. The version lists and older versions of the three records are left open. -/
structure Effect (cfg : Config) (s₀ : State) (c : ClientID) (cart : PaymentCart) (cID : UInt32)
    (s : State) (events : List Event) : Prop where
  warehouse : (s.mem (.warehouse cart.wID)).head =
    ⟨newTimestamp cfg (s₀.mem (.warehouse cart.wID)).head.writeTimestamp c
        ((s₀.clients c).newCommitTimestamp cfg c),
      { (s₀.mem (.warehouse cart.wID)).head.body with
        W_YTD := (s₀.mem (.warehouse cart.wID)).head.body.W_YTD + cart.hAmount }⟩
  district : (s.mem (.district cart.wID cart.dID)).head =
    ⟨newTimestamp cfg (s₀.mem (.district cart.wID cart.dID)).head.writeTimestamp c
        ((s₀.clients c).newCommitTimestamp cfg c),
      { (s₀.mem (.district cart.wID cart.dID)).head.body with
        D_YTD := (s₀.mem (.district cart.wID cart.dID)).head.body.D_YTD + cart.hAmount }⟩
  customer : (s.mem (paidBy cart cID)).head =
    ⟨newTimestamp cfg (s₀.mem (paidBy cart cID)).head.writeTimestamp c
        ((s₀.clients c).newCommitTimestamp cfg c),
      { (s₀.mem (paidBy cart cID)).head.body with
        C_BALANCE := (s₀.mem (paidBy cart cID)).head.body.C_BALANCE - cart.hAmount
        C_YTD_PAYMENT := (s₀.mem (paidBy cart cID)).head.body.C_YTD_PAYMENT + cart.hAmount
        C_PAYMENT_CNT := (s₀.mem (paidBy cart cID)).head.body.C_PAYMENT_CNT + 1
        C_DATA := (s.mem (paidBy cart cID)).head.body.C_DATA }⟩
  /-- The array `C_DATA` changes exactly for bad credit. -/
  data : (s.mem (paidBy cart cID)).head.body.C_DATA.take dataSize ≠
      (s₀.mem (paidBy cart cID)).head.body.C_DATA.take dataSize ↔
    (s₀.mem (paidBy cart cID)).head.body.C_CREDIT = "BC"
  /-- One History row is stored, on the server of the home warehouse. -/
  history : ∃ tableIndex historyV,
    rowsStored .history c events = [⟨.history (cfg.getServerNum cart.wID) tableIndex, historyV⟩] ∧
    s.mem (.history (cfg.getServerNum cart.wID) tableIndex) =
      { s₀.mem (.history (cfg.getServerNum cart.wID) tableIndex) with head := historyV } ∧
    (historyV.body.H_C_W_ID, historyV.body.H_C_D_ID, historyV.body.H_C_ID) =
      (cart.residentWarehouseID, cart.dID, cID) ∧
    (historyV.body.H_W_ID, historyV.body.H_D_ID) = (cart.wID, cart.dID)
  frame : ∀ k, k ∉ (slots cart cID).map Prod.fst →
    (∀ historyV, ⟨k, historyV⟩ ∉ rowsStored .history c events) → s.mem k = s₀.mem k

/-! ## The verbs of a Payment -/

def Harmless (cart : PaymentCart) (cID : UInt32) (v : Verb) : Prop :=
  ∀ k, k ∉ (slots cart cID).map Prod.fst → v.touches k = false

theorem harmless_of_touches {x : Key × ℕ} (hx : x ∈ slots cart cID)
    (h : ∀ k, v.touches k = true → x.1 = k) : Harmless cart cID v := by
  intro k hk
  by_contra ht
  exact hk (h k (by simpa using ht) ▸ List.mem_map_of_mem hx)

theorem buffers_payment (cart : PaymentCart) (cl : Client) :
    ({ cl with phase := .payment cart .publish } : Client).buffers = cl.localMemory .payment := rfl

theorem harmless_lockPosts (h : NamedCopies cart cID cl)
    (hv : v ∈ (lockPosts c cl cts).map (·.verb)) : Harmless cart cID v := by
  rw [lockPosts_verbs h (buffers_payment cart cl)] at hv
  obtain ⟨x, hx, hv⟩ := List.mem_flatMap.1 hv
  rw [List.mem_singleton.1 hv]
  exact harmless_of_touches hx fun k ht => of_decide_eq_true ht

theorem harmless_appendPosts (h : NamedCopies cart cID cl)
    (hv : v ∈ (appendPosts cfg cl).map (·.verb)) : Harmless cart cID v := by
  rw [appendPosts_verbs h (buffers_payment cart cl)] at hv
  obtain ⟨x, hx, hv⟩ := List.mem_flatMap.1 hv
  rcases List.mem_pair.1 hv with rfl | rfl <;>
    exact harmless_of_touches hx fun k ht => of_decide_eq_true ht

theorem covering_lockPosts (h : NamedCopies cart cID cl) : Covering cfg (lockPosts c cl cts) :=
  fun _ _ _ => endedOn_lockPosts h

/-! ## What a commit leaves behind -/

structure Copied (m₀ : Memory) (cart : PaymentCart) (cID : UInt32) (cl : Client) : Prop where
  warehouse : warehouseV cl = (m₀ (.warehouse cart.wID)).head
  district : districtV cl = (m₀ (.district cart.wID cart.dID)).head
  customer : customerV cl = (m₀ (paidBy cart cID)).head

abbrev paymentCts (cfg : Config) (s₀ : State) (c : ClientID) : UInt32 :=
  (s₀.clients c).newCommitTimestamp cfg c

abbrev staleWarehouseID (s₀ : State) (c : ClientID) : UInt16 :=
  (((s₀.clients c).localMemory .payment).head .history 0).body.H_W_ID

def historySlot (cfg : Config) (s₀ : State) (c : ClientID) : Key :=
  .history (cfg.getServerNum (staleWarehouseID s₀ c))
    (c.toNat * cfg.HISTORY_BUFFER_PER_CLIENT + (s₀.clients c).nextHistoryID)

def storedHistory (cfg : Config) (s₀ : State) (c : ClientID) (cart : PaymentCart) :
    Version History where
  writeTimestamp := .setAll false false 0 c (paymentCts cfg s₀ c)
  body :=
    { H_C_ID := cart.wID.toUInt32, H_C_D_ID := cart.dID, H_C_W_ID := cart.residentWarehouseID,
      H_D_ID := cart.dID, H_W_ID := staleWarehouseID s₀ c, H_AMOUNT := cart.hAmount,
      H_DATA := (s₀.mem (.warehouse cart.wID)).head.body.W_NAME ++ "    " ++
        (s₀.mem (.district cart.wID cart.dID)).head.body.D_NAME }

def rows (cfg : Config) (s₀ : State) (c : ClientID) (cart : PaymentCart) (cID : UInt32) :
    List PlacedRow :=
  [⟨.warehouse cart.wID,
      newWarehouseV cfg c cart (paymentCts cfg s₀ c) (s₀.mem (.warehouse cart.wID)).head⟩,
    ⟨.district cart.wID cart.dID,
      newDistrictV cfg c cart (paymentCts cfg s₀ c) (s₀.mem (.district cart.wID cart.dID)).head⟩,
    ⟨paidBy cart cID,
      newCustomerV cfg c cart cID (paymentCts cfg s₀ c) (s₀.mem (paidBy cart cID)).head⟩,
    ⟨historySlot cfg s₀ c, storedHistory cfg s₀ c cart⟩]

theorem nodup_rows : ((rows cfg s₀ c cart cID).map Sigma.fst).Nodup := by
  simp [rows, historySlot]

/-- What the Payment leaves behind when its requests have taken effect: the four rows are stored,
and nothing else has changed but the lists and rings of the three records. -/
structure Left (cfg : Config) (s₀ : State) (c : ClientID) (cart : PaymentCart) (cID : UInt32)
    (s : State) (events : List Event) : Prop where
  warehouse : (s.mem (.warehouse cart.wID)).head = newWarehouseV cfg c cart
    (paymentCts cfg s₀ c) (s₀.mem (.warehouse cart.wID)).head
  district : (s.mem (.district cart.wID cart.dID)).head = newDistrictV cfg c cart
    (paymentCts cfg s₀ c) (s₀.mem (.district cart.wID cart.dID)).head
  customer : (s.mem (paidBy cart cID)).head = newCustomerV cfg c cart cID
    (paymentCts cfg s₀ c) (s₀.mem (paidBy cart cID)).head
  history : rowsStored .history c events = [⟨historySlot cfg s₀ c, storedHistory cfg s₀ c cart⟩]
  stored : s.mem (historySlot cfg s₀ c) =
    { s₀.mem (historySlot cfg s₀ c) with head := storedHistory cfg s₀ c cart }
  frame : ∀ k, k ∉ (slots cart cID).map Prod.fst → k ≠ historySlot cfg s₀ c → s.mem k = s₀.mem k

/-- **What a Payment that commits leaves behind.** -/
theorem left_of_installs (hunder : Underway cfg s₀ c .payment s events posted)
    (hnil : (s.clients c).outstanding = [])
    (h : Installs (rows cfg s₀ c cart cID) (Harmless cart cID) posted) :
    Left cfg s₀ c cart cID s events := by
  have hmem := hunder.mem hnil
  have hhead : ∀ r ∈ rows cfg s₀ c cart cID, (s.mem r.1).head = r.2 := by
    intro r hr
    obtain ⟨before, -, heq⟩ := h.head nodup_rows hr
    rw [hmem, heq]
  have hother : ∀ k : Key, k.table = .history → k ∉ (slots cart cID).map Prod.fst := by
    intro k hk hmem
    simp only [slots, List.map_cons, List.map_nil, List.mem_cons, List.not_mem_nil,
      or_false] at hmem
    rcases hmem with rfl | rfl | rfl <;> cases hk
  refine ⟨hhead ⟨.warehouse cart.wID, _⟩ List.mem_cons_self,
    hhead ⟨.district cart.wID cart.dID, _⟩ (List.mem_append_right [_] List.mem_cons_self),
    hhead ⟨paidBy cart cID, _⟩ (List.mem_append_right [_, _] List.mem_cons_self), ?_, ?_,
    fun k hk hne => ?_⟩
  · exact List.perm_singleton.1 (hunder.rowsStored_of_installs hnil h
      fun v hv k hk => hv k (hother k hk))
  · rw [hmem]
    exact h.record nodup_rows (List.mem_append_right [_, _, _] List.mem_cons_self)
      fun v hv => hv _ (hother _ rfl)
  · rw [hmem]
    refine h.frame (fun hmem => ?_) fun v hv => hv k hk
    simp only [slots, List.map_cons, List.map_nil, List.mem_cons, List.not_mem_nil, or_false,
      not_or] at hk
    simp only [rows, List.map_cons, List.map_nil, List.mem_cons, List.not_mem_nil,
      or_false] at hmem
    rcases hmem with rfl | rfl | rfl | rfl
    · exact hk.1 rfl
    · exact hk.2.1 rfl
    · exact hk.2.2 rfl
    · exact hne rfl

/-! ## How far a Payment has come -/

/-- The counter and the buffer of the History rows are as they were in `cl₀`. -/
structure Kept (cl₀ cl : Client) : Prop where
  nextHistoryID : cl.nextHistoryID = cl₀.nextHistoryID
  history : (cl.localMemory .payment).head .history 0 = (cl₀.localMemory .payment).head .history 0
  fills : ∀ v ∈ cl.verbs, v.fills .history 0 = false

variable {cl₀ : Client} {i : ℕ} {wr : WorkRequest}

theorem Kept.effect (h : Kept cl₀ (s.clients c)) (ho : (s.clients c).Oldest cfg i wr)
    (hown : wr.owner.trx.cls = .payment) : Kept cl₀ ((s.effect c i wr answer).clients c) := by
  have hv := List.mem_of_getElem? (Client.oldest_verbs ho).getElem
  rw [State.effect_clients_self]
  refine ⟨h.nextHistoryID, ?_, fun v hv => ?_⟩
  · have hhead : (((s.land wr answer (s.clients c)).complete i wr).localMemory .payment).head =
        (s.landLocal wr.verb ((s.clients c).localMemory .payment)).head := by
      simp only [Client.complete, State.land, hown, Function.update_self]
    rw [hhead, State.landLocal_head_of_not_fills (h.fills _ hv), h.history]
  · rw [Client.verbs_complete] at hv
    exact h.fills v (List.mem_of_mem_eraseIdx hv)

theorem Kept.post (h : Kept cl₀ cl) {vs : List Verb} (hverbs : cl'.verbs = cl.verbs ++ vs)
    (hnext : cl'.nextHistoryID = cl.nextHistoryID)
    (hlocal : cl'.localMemory .payment = cl.localMemory .payment)
    (hfills : ∀ v ∈ vs, v.fills .history 0 = false) : Kept cl₀ cl' where
  nextHistoryID := hnext.trans h.nextHistoryID
  history := by rw [hlocal, h.history]
  fills := by
    intro v hv
    rw [hverbs] at hv
    exact (List.mem_append.1 hv).elim (h.fills v) (hfills v)

def Known (cfg : Config) (cl₀ : Client) (cart : PaymentCart) (answer : IndexAnswer) :
    PaymentPC → Prop
  | .readSet => True
  | .lookup => cart.customerSelectionMode = .LAST_NAME
  | .customer cID | .snapshot cID => customerID cfg cl₀ cart answer = some cID
  | _ => False

/-- How far a Payment that was started in `s₀` has come: its client is `cl`, `events` have happened
and it has posted `posted`. -/
inductive Stage (cfg : Config) (s₀ : State) (c : ClientID) (cart : PaymentCart)
    (answer : IndexAnswer) (cl : Client) (events : List Event) (posted : List Verb) : Prop
  | reading (pc : PaymentPC) (phase : cl.phase = .payment cart pc)
      (known : Known cfg (s₀.clients c) cart answer pc)
      (state : Reading s₀.mem c .payment (Phase.payment cart pc).readSet cl events posted)
      (kept : Kept (s₀.clients c) cl) (epoch : cl.nextEpoch = (s₀.clients c).nextEpoch)
  | holding (cID : UInt32)
      (phase : cl.phase = .payment cart (.locks cID (paymentCts cfg s₀ c)) ∨
        cl.phase = .payment cart (.log cID (paymentCts cfg s₀ c)))
      (known : customerID cfg (s₀.clients c) cart answer = some cID)
      (state : Holding s₀.mem c .payment (slots cart cID) (Harmless cart cID) cl events posted)
      (kept : Kept (s₀.clients c) cl)
  /-- It gives up. -/
  | reverting (phase : cl.phase = .payment cart .reverts)
      (unfinished : Unfinished c events)
  | aborted (phase : cl.phase = .idle) (outcome : NotCommitted c events)
  /-- The index has found no customer. -/
  | missing (phase : cl.phase = .idle) (none : customerID cfg (s₀.clients c) cart answer = none)
  /-- It has posted the rows. -/
  | committing (cID : UInt32)
      (phase : cl.phase = .payment cart .install ∨ cl.phase = .payment cart .publish ∨
        cl.phase = .idle)
      (known : customerID cfg (s₀.clients c) cart answer = some cID)
      (installs : Installs (rows cfg s₀ c cart cID) (Harmless cart cID) posted)

/-- A Payment in isolation: what every run has in common, and how far it has come. -/
def Progress (cfg : Config) (s₀ : State) (c : ClientID) (cart : PaymentCart)
    (answer : IndexAnswer) (s : State) : Prop :=
  ∃ events posted, Underway cfg s₀ c .payment s events posted ∧
    Stage cfg s₀ c cart answer (s.clients c) events posted

theorem Progress.effect (h : Progress cfg s₀ c cart answer s) (ho : (s.clients c).Oldest cfg i wr) :
    Progress cfg s₀ c cart answer (s.effect c i wr answer) := by
  obtain ⟨events, posted, hunder, hstage⟩ := h
  have hown := hunder.own wr (List.mem_of_getElem? ho.getElem)
  have hphase : ((s.effect c i wr answer).clients c).phase = (s.clients c).phase :=
    State.effect_phase
  refine ⟨_, posted, hunder.effect ho, ?_⟩
  cases hstage with
  | reading pc phase known state kept epoch =>
    refine .reading pc (hphase.trans phase) known (state.effect hunder ho) (kept.effect ho hown) ?_
    rw [State.effect_clients_self]
    exact epoch
  | holding cID phase known state kept =>
    exact .holding cID (by rwa [hphase]) known (state.effect hunder ho) (kept.effect ho hown)
  | reverting phase unfinished => exact .reverting (hphase.trans phase) (unfinished.cons rfl)
  | aborted phase outcome => exact .aborted (hphase.trans phase) (outcome.cons rfl)
  | missing phase none => exact .missing (hphase.trans phase) none
  | committing cID phase known installs =>
    exact .committing cID (by rwa [hphase]) known installs

theorem Progress.readOracle (h : Progress cfg s₀ c cart answer s) (g : ℕ) :
    Progress cfg s₀ c cart answer (s.readOracle g) := by
  obtain ⟨events, posted, hunder, hstage⟩ := h
  refine ⟨_, posted, hunder.readOracle g, ?_⟩
  cases hstage with
  | reading pc phase known state kept epoch =>
    exact .reading pc phase known { state with unfinished := state.unfinished.cons rfl } kept epoch
  | holding cID phase known state kept =>
    exact .holding cID phase known { state with unfinished := state.unfinished.cons rfl } kept
  | reverting phase unfinished => exact .reverting phase (unfinished.cons rfl)
  | aborted phase outcome => exact .aborted phase (outcome.cons rfl)
  | missing phase none => exact .missing phase none
  | committing cID phase known installs => exact .committing cID phase known installs

/-! ## Steps of the CPU -/

variable {pc pc' : PaymentPC} {posts : List Post}

theorem Kept.poll (h : Kept cl₀ cl) : Kept cl₀ (cl.poll cfg) :=
  ⟨h.nextHistoryID, h.history, h.fills⟩

/-- What is known of the client of a Payment that reads, when its poll loop is over. -/
structure Polled (cfg : Config) (s₀ s : State) (c : ClientID) (cart : PaymentCart) (pc : PaymentPC)
    (events : List Event) (posted : List Verb) : Prop where
  under : Underway cfg s₀ c .payment s events posted
  rested : ((s.clients c).poll cfg).Rested
  state : Reading s₀.mem c .payment (Phase.payment cart pc).readSet ((s.clients c).poll cfg) events
    posted
  kept : Kept (s₀.clients c) ((s.clients c).poll cfg)
  epoch : (s.clients c).nextEpoch = (s₀.clients c).nextEpoch

theorem Polled.read (h : Polled cfg s₀ s c cart pc events posted)
    (hp : Posted cfg ((s.clients c).poll cfg) cl' (.payment cart) posts) (hcov : Covering cfg posts)
    (hphase : cl'.phase = .payment cart pc')
    (hknown : Known cfg (s₀.clients c) cart answer pc')
    (hlocal : cl'.localMemory = (s.clients c).localMemory)
    (hnext : cl'.nextHistoryID = (s.clients c).nextHistoryID)
    (hepoch : cl'.nextEpoch = (s.clients c).nextEpoch)
    (hreads : ∀ p ∈ posts, p.verb.kind = .read ∧ p.verb.fills .history 0 = false ∧
      ∀ x ∈ (Phase.payment cart pc').readSet, p.verb.fills x.1.table x.2 = true →
        p.verb = .readHead x.1 x.2)
    (hslots : ∀ x ∈ (Phase.payment cart pc').readSet, x ∈ (Phase.payment cart pc).readSet ∨
      .readHead x.1 x.2 ∈ posts.map (·.verb)) :
    Progress cfg s₀ c cart answer (s.setClient c cl' o .resume) := by
  refine ⟨_, _, h.under.batch h.rested hp hcov rfl, ?_⟩
  rw [State.setClient_clients_self]
  refine .reading pc' hphase hknown ?_ ?_ (hepoch.trans h.epoch)
  · exact h.state.post h.rested hp.verbs (by rw [hlocal]; rfl)
      (List.forall_mem_map.2 fun p hpm => (hreads p hpm).1)
      (List.forall_mem_map.2 fun p hpm => (hreads p hpm).2.2) hslots rfl
  · exact h.kept.post hp.verbs hnext (congrFun hlocal _)
      (List.forall_mem_map.2 fun p hpm => (hreads p hpm).2.1)

theorem Polled.customerStep (h : Polled cfg s₀ s c cart pc events posted)
    (hpc : pc = .readSet ∨ pc = .lookup)
    (hcustomer : customerID cfg (s₀.clients c) cart answer = some cID) :
    Progress cfg s₀ c cart answer
      (s.setClient c (customerStep ((s.clients c).poll cfg) cart cID).1 o .resume) := by
  have hp : Posted cfg ((s.clients c).poll cfg)
      (PaymentTransaction.customerStep ((s.clients c).poll cfg) cart cID).1 (.payment cart)
      (customerPosts cart cID) := posted_post rfl rfl rfl rfl rfl rfl
  have hcov : Covering cfg (customerPosts cart cID) := by
    refine covering_concat [_] rfl fun p hp => ?_
    rw [List.mem_singleton.1 hp]
    rfl
  have hphase : (PaymentTransaction.customerStep ((s.clients c).poll cfg) cart cID).1.phase =
    .payment cart (.customer cID) := rfl
  refine h.read hp hcov hphase hcustomer rfl rfl rfl ?_ ?_
  · intro p hp
    rcases List.mem_pair.1 hp with rfl | rfl
    · refine ⟨rfl, rfl, fun x hx hfills => ?_⟩
      simp only [Phase.readSet, List.mem_cons, List.not_mem_nil, or_false] at hx
      rcases hx with rfl | rfl | rfl
      · simp [retrieveCustomer, Verb.fills] at hfills
      · simp [retrieveCustomer, Verb.fills] at hfills
      · rfl
    · exact ⟨rfl, rfl, fun x _ hfills => by cases hfills⟩
  · intro x hx
    simp only [Phase.readSet, List.mem_cons, List.not_mem_nil, or_false] at hx
    rcases hx with rfl | rfl | rfl
    · exact .inl (by rcases hpc with rfl | rfl <;> simp [Phase.readSet])
    · exact .inl (by rcases hpc with rfl | rfl <;> simp [Phase.readSet])
    · exact .inr List.mem_cons_self

theorem Polled.afterReadSet (h : Polled cfg s₀ s c cart .readSet events posted) :
    Progress cfg s₀ c cart answer
      (s.setClient c (afterReadSet cfg ((s.clients c).poll cfg) cart).1 o
        (afterReadSet cfg ((s.clients c).poll cfg) cart).2) := by
  cases hmode : cart.customerSelectionMode with
  | ID =>
    simp only [PaymentTransaction.afterReadSet, hmode]
    exact h.customerStep (.inl rfl) (by simp [customerID, hmode])
  | LAST_NAME =>
    simp only [PaymentTransaction.afterReadSet, hmode]
    refine h.read (posted_post rfl rfl rfl rfl rfl rfl)
      (covering_of_signaled (by simp [lookupCustomerByLastName])) rfl hmode rfl rfl rfl ?_
      fun x hx => .inl hx
    intro p hp
    rw [List.mem_singleton.1 hp]
    exact ⟨rfl, rfl, fun x _ hfills => by cases hfills⟩

theorem during_of_isolated (hs : Isolated cfg c answer s₁ s) :
    ∃ w, During cfg c s₁ w ∧ w.sys = s ∧
      ∀ ans, w.answer = some ans → ans = answer.customerName := by
  induction hs with
  | start hs =>
    obtain rfl := hs
    exact ⟨_, .start rfl, rfl, fun _ h => by cases h⟩
  | next _ hok ha ih =>
    obtain ⟨w, hw, rfl, hans⟩ := ih
    rename_i s' a _
    have hstarts : ¬ a.starts c := by
      cases a <;> first | exact absurd hok id | exact id
    refine ⟨⟨s', (a.lookupAnswer c w.sys).or w.answer⟩, .next hw hstarts ?_, rfl, ?_⟩
    · simp only [Watched.step, ha, Option.map_some]
    · intro ans h
      rcases Option.or_eq_some_iff.1 h with h | ⟨-, h⟩
      · cases a with
        | nic c' i answer' =>
          obtain ⟨rfl, rfl⟩ := hok
          simp only [Action.lookupAnswer] at h
          split at h
          · exact (Option.some.inj h).symm
          · cases h
        | _ => cases h
      · exact hans ans h

theorem customerNameResp_of_isolated (hrest : (s₀.clients c).Rested)
    (hstart : step cfg s₀ (.payment c cart) = some s₁) (hs : Isolated cfg c answer s₁ s)
    (hphase : (s.clients c).phase = .payment cart .lookup)
    (hpolled : ((s.clients c).poll cfg).Rested) :
    (s.clients c).customerNameResp = Function.update (s₀.clients c).customerNameResp
      (askedServer cfg cart) answer.customerName := by
  obtain ⟨w, hw, rfl, hanswer⟩ := during_of_isolated hs
  cases lookup_of_during hrest hstart hw with
  | readSet phase =>
    rw [phase] at hphase
    cases hphase
  | asked phase reads accounted resp one verb =>
    -- the poll loop is not over before the index has answered
    obtain ⟨wr, hwr, hv⟩ := List.countP_pos_iff.1 (by rw [one]; exact Nat.one_pos)
    have hlands := hpolled.landed wr hwr
    rw [lands_of_isLookup hv] at hlands
    cases hlands
  | answered ans hans phase reads resp none => rw [resp, hanswer ans hans]
  | past phase =>
    rcases phase with phase | ⟨pc, phase, -, hne⟩ <;> rw [phase] at hphase
    · cases hphase
    · exact absurd (by simpa using hphase) hne

theorem progress_stop (hunder : Underway cfg s₀ c .payment s events posted)
    (hrest : ((s.clients c).poll cfg).Rested) {l : CpuLabel}
    (hstage : Stage cfg s₀ c cart answer { (s.clients c).poll cfg with phase := .idle }
      (.cpu c o l :: events) posted) :
    Progress cfg s₀ c cart answer
      (s.setClient c { (s.clients c).poll cfg with phase := .idle } o l) := by
  refine ⟨_, posted, hunder.finish hrest rfl rfl rfl rfl, ?_⟩
  rwa [State.setClient_clients_self]

theorem Polled.afterLookup (h : Polled cfg s₀ s c cart .lookup events posted)
    (hmode : cart.customerSelectionMode = .LAST_NAME)
    (hresp : (s.clients c).customerNameResp = Function.update (s₀.clients c).customerNameResp
      (askedServer cfg cart) answer.customerName) :
    Progress cfg s₀ c cart answer
      (s.setClient c (afterLookup cfg ((s.clients c).poll cfg) cart).1 o
        (afterLookup cfg ((s.clients c).poll cfg) cart).2) := by
  have hbuffer : ((s.clients c).poll cfg).customerNameResp =
    Function.update (s₀.clients c).customerNameResp (askedServer cfg cart)
      answer.customerName := hresp
  simp only [PaymentTransaction.afterLookup]
  split
  · rename_i hfound
    refine h.customerStep (.inr rfl) ?_
    simp only [customerID, hmode, ← hbuffer, if_pos hfound]
  · rename_i hmissing
    refine progress_stop h.under h.rested (.missing rfl ?_)
    simp only [customerID, hmode, ← hbuffer, if_neg hmissing]

theorem copied_of_copying (h : Copying s₀.mem .payment (slots cart cID) cl) (hrest : cl.Rested) :
    Copied s₀.mem cart cID cl := by
  have hcopied : ∀ x ∈ slots cart cID,
      (cl.localMemory .payment).head x.1.table x.2 = (s₀.mem x.1).head :=
    fun x hx => h.copied hrest hx
  exact ⟨hcopied (.warehouse cart.wID, 0) (by simp [slots]),
    hcopied (.district cart.wID cart.dID, 0) (by simp [slots]),
    hcopied (paidBy cart cID, 0) (by simp [slots])⟩

theorem Copied.named (h : Copied s₀.mem cart cID cl)
    (hnames : s₀.RowsNamed) :
    NamedCopies cart cID cl where
  warehouse := by
    rw [h.warehouse]
    exact hnames _ rfl
  district := by
    rw [h.district]
    exact hnames _ rfl
  customer := by
    rw [h.customer]
    exact hnames _ rfl

theorem Polled.checkStep (h : Polled cfg s₀ s c cart pc events posted)
    (hslots : (Phase.payment cart pc).readSet = slots cart cID)
    (hcustomer : customerID cfg (s₀.clients c) cart answer = some cID) (hnames : s₀.RowsNamed) :
    Progress cfg s₀ c cart answer
      (s.setClient c (checkStep cfg c ((s.clients c).poll cfg) cart cID).1 o
        (checkStep cfg c ((s.clients c).poll cfg) cart cID).2) := by
  have hstate := h.state
  rw [hslots] at hstate
  have hnamed := (copied_of_copying hstate.copying h.rested).named hnames
  have hcts : ((s.clients c).poll cfg).newCommitTimestamp cfg c = paymentCts cfg s₀ c := by
    have hepoch : ((s.clients c).poll cfg).nextEpoch = (s₀.clients c).nextEpoch := h.epoch
    simp only [Client.newCommitTimestamp, hepoch]
  unfold PaymentTransaction.checkStep
  split
  · simp only [hcts]
    have hp : Posted cfg ((s.clients c).poll cfg)
        (({ ((s.clients c).poll cfg).advanceEpoch with
          phase := .payment cart (.locks cID (paymentCts cfg s₀ c)) } : Client).post
            (.payment cart) (lockPosts c ((s.clients c).poll cfg) (paymentCts cfg s₀ c)))
        (.payment cart) (lockPosts c ((s.clients c).poll cfg) (paymentCts cfg s₀ c)) :=
      posted_post rfl rfl rfl rfl rfl rfl
    have hlock : ∀ p ∈ lockPosts c ((s.clients c).poll cfg) (paymentCts cfg s₀ c),
        p.verb.kind ≠ .read ∧ ∀ t b, p.verb.fills t b = false := by
      intro p hpm
      simp only [lockPosts, List.mem_cons, List.not_mem_nil, or_false] at hpm
      rcases hpm with rfl | rfl | rfl <;>
        exact ⟨by simp [lockWarehouse, lockDistrict, lockCustomer, lock, Verb.kind], fun _ _ => rfl⟩
    refine ⟨_, _, h.under.batch h.rested hp (covering_lockPosts hnamed) rfl, ?_⟩
    rw [State.setClient_clients_self]
    refine .holding cID (.inl rfl) hcustomer ?_ ?_
    · refine (hstate.holding h.rested fun v hv k _ => Verb.touches_of_read hv k).post h.rested
        hp.verbs rfl (List.forall_mem_map.2 fun p hpm => ?_) rfl
      exact ⟨harmless_lockPosts hnamed (List.mem_map_of_mem hpm), (hlock p hpm).1,
        fun x _ => (hlock p hpm).2 _ _⟩
    · exact h.kept.post hp.verbs rfl rfl (List.forall_mem_map.2 fun p hpm => (hlock p hpm).2 _ _)
  · exact progress_stop h.under h.rested (.aborted rfl hstate.unfinished.not_committed)

theorem Polled.afterCustomer (h : Polled cfg s₀ s c cart (.customer cID) events posted)
    (hcustomer : customerID cfg (s₀.clients c) cart answer = some cID) (hnames : s₀.RowsNamed)
    (vec : ClientID → UInt32) :
    Progress cfg s₀ c cart answer
      (s.setClient c (afterCustomer cfg c ((s.clients c).poll cfg) cart vec cID).1 o
        (afterCustomer cfg c ((s.clients c).poll cfg) cart vec cID).2) := by
  cases hmode : cfg.SNAPSHOT_ACQUISITION_TYPE with
  | COMPLETE =>
    simp only [PaymentTransaction.afterCustomer, hmode]
    exact h.checkStep rfl hcustomer hnames
  | ONLY_READ_SET =>
    simp only [PaymentTransaction.afterCustomer, hmode]
    obtain ⟨vec', posts, heq, hended, hposts⟩ := acquireSnapshot_eq cfg vec ((s.clients c).poll cfg)
      (.payment cart (.snapshot cID)) (.payment cart)
      (clientIDsInReadSet ((s.clients c).poll cfg))
    rw [heq]
    refine h.read (posted_post rfl rfl rfl rfl rfl rfl) (fun p _ _ => hended _) rfl hcustomer rfl
      rfl rfl (fun p hp => ?_) fun x hx => .inl hx
    rcases hposts p hp with hv | ⟨id, hv⟩ <;> rw [hv] <;>
      exact ⟨rfl, rfl, fun x _ hfills => by cases hfills⟩

/-- What is known of the client of a Payment that holds its records, when its poll loop is over. -/
structure Locked (cfg : Config) (s₀ s : State) (c : ClientID) (cart : PaymentCart) (cID : UInt32)
    (events : List Event) (posted : List Verb) : Prop where
  under : Underway cfg s₀ c .payment s events posted
  rested : ((s.clients c).poll cfg).Rested
  state : Holding s₀.mem c .payment (slots cart cID) (Harmless cart cID) ((s.clients c).poll cfg)
    events posted
  kept : Kept (s₀.clients c) ((s.clients c).poll cfg)

theorem Locked.copied (h : Locked cfg s₀ s c cart cID events posted) :
    Copied s₀.mem cart cID ((s.clients c).poll cfg) :=
  copied_of_copying h.state.copying h.rested

theorem installPosts_eq_rows (hkept : Kept (s₀.clients c) cl)
    (hcopied : Copied s₀.mem cart cID cl) (hnames : s₀.RowsNamed) :
    (installPosts cfg c cl cart cID (paymentCts cfg s₀ c)).map (·.verb) =
      (rows cfg s₀ c cart cID).map writeRow := by
  have hhistory : newHistoryV c cl cart (paymentCts cfg s₀ c) = storedHistory cfg s₀ c cart := by
    simp only [newHistoryV, storedHistory, buffers, hkept.history, hcopied.warehouse,
      hcopied.district]
  rw [installPosts_verbs (hcopied.named hnames), hhistory, hkept.nextHistoryID]
  simp only [slots, List.flatMap_cons, List.flatMap_nil, newHead, hcopied.warehouse,
    hcopied.district, hcopied.customer]
  rfl

theorem Locked.installStep (h : Locked cfg s₀ s c cart cID events posted)
    (hcustomer : customerID cfg (s₀.clients c) cart answer = some cID) (hnames : s₀.RowsNamed)
    (vec : ClientID → UInt32) :
    Progress cfg s₀ c cart answer
      (s.setClient c (installStep cfg c
        { (s.clients c).poll cfg with localTimestampVector := vec } cart cID
          (paymentCts cfg s₀ c)).1 o .resume) := by
  have hp : Posted cfg ((s.clients c).poll cfg)
      (PaymentTransaction.installStep cfg c
        { (s.clients c).poll cfg with localTimestampVector := vec } cart cID
        (paymentCts cfg s₀ c)).1 (.payment cart)
      (appendPosts cfg ((s.clients c).poll cfg) ++
        installPosts cfg c ((s.clients c).poll cfg) cart cID (paymentCts cfg s₀ c)) :=
    posted_post rfl rfl rfl rfl rfl rfl
  have hcov : Covering cfg (appendPosts cfg ((s.clients c).poll cfg) ++
      installPosts cfg c ((s.clients c).poll cfg) cart cID (paymentCts cfg s₀ c)) := by
    intro p hpm hlands
    rw [(mem_commitPosts hpm).1] at hlands
    cases hlands
  refine ⟨_, _, h.under.batch h.rested hp hcov rfl, ?_⟩
  rw [State.setClient_clients_self]
  refine .committing cID (.inl rfl) hcustomer ?_
  refine ⟨posted ++ (appendPosts cfg ((s.clients c).poll cfg)).map (·.verb), [], ?_, ?_,
    fun v hv => by cases hv⟩
  · rw [List.map_append, installPosts_eq_rows h.kept h.copied hnames, List.append_nil,
      List.append_assoc]
  · intro v hv
    rcases List.mem_append.1 hv with hv | hv
    · exact h.state.allowed v hv
    · exact harmless_appendPosts (h.copied.named hnames) hv

theorem Locked.afterLocks (h : Locked cfg s₀ s c cart cID events posted)
    (hcustomer : customerID cfg (s₀.clients c) cart answer = some cID) (hnames : s₀.RowsNamed) :
    Progress cfg s₀ c cart answer
      (s.setClient c (afterLocks cfg c ((s.clients c).poll cfg) cart cID (paymentCts cfg s₀ c)).1 o
        (afterLocks cfg c ((s.clients c).poll cfg) cart cID (paymentCts cfg s₀ c)).2) := by
  unfold PaymentTransaction.afterLocks
  split
  · simp only
    split
    · -- the log is written first
      have hp : Posted cfg ((s.clients c).poll cfg)
          (({ (s.clients c).poll cfg with
            localTimestampVector := Function.update
              ((s.clients c).poll cfg).localTimestampVector c (paymentCts cfg s₀ c)
            phase := .payment cart (.log cID (paymentCts cfg s₀ c)) } : Client).postLog
              (.payment cart) (logServers cfg c)) (.payment cart)
          ((logServers cfg c).map fun n => ⟨.writeLog n, true⟩) :=
        posted_postLog rfl rfl rfl rfl h.rested.counted (by simp [logServers]) rfl rfl
      refine ⟨_, _, h.under.batch h.rested hp (covering_of_signaled (by simp)) rfl, ?_⟩
      rw [State.setClient_clients_self]
      refine .holding cID (.inr rfl) hcustomer ?_ ?_
      · refine h.state.post h.rested hp.verbs rfl (fun v hv => ?_) rfl
        obtain ⟨n, rfl⟩ := exists_of_mem_log hv
        exact ⟨fun _ _ => rfl, by simp [Verb.kind], fun _ _ => rfl⟩
      · refine h.kept.post hp.verbs rfl rfl fun v hv => ?_
        obtain ⟨n, rfl⟩ := exists_of_mem_log hv
        rfl
    · exact h.installStep hcustomer hnames _
  · have hsignaled : ∀ p ∈ revertPosts ((s.clients c).poll cfg), p.signaled = true := by
      intro p hpm
      simp only [revertPosts, List.mem_append] at hpm
      rcases hpm with (hpm | hpm) | hpm
      all_goals
        split at hpm
        · rw [List.mem_singleton.1 hpm]
          rfl
        · cases hpm
    refine ⟨_, _, h.under.batch h.rested (posted_post rfl rfl rfl rfl rfl rfl)
      (covering_of_signaled hsignaled) rfl, ?_⟩
    rw [State.setClient_clients_self]
    exact .reverting rfl (h.state.unfinished.cons rfl)

theorem progress_afterInstall (hunder : Underway cfg s₀ c .payment s events posted)
    (hrest : ((s.clients c).poll cfg).Rested)
    (hcustomer : customerID cfg (s₀.clients c) cart answer = some cID)
    (hinstalls : Installs (rows cfg s₀ c cart cID) (Harmless cart cID) posted) :
    Progress cfg s₀ c cart answer
      (s.setClient c (afterInstall cfg c ((s.clients c).poll cfg) cart).1 o .resume) := by
  refine ⟨_, _, hunder.batch hrest (posted_post rfl rfl rfl rfl rfl rfl)
    (covering_of_signaled (by simp [submitResult])) rfl, ?_⟩
  rw [State.setClient_clients_self]
  refine .committing cID (.inr (.inl rfl)) hcustomer ?_
  refine hinstalls.post fun v hv => ?_
  rw [List.mem_singleton.1 hv]
  exact fun _ => rfl

/-! ## Runs -/

theorem Progress.cpu (h : Progress cfg s₀ c cart answer s) (hrest₀ : (s₀.clients c).Rested)
    (hnames : s₀.RowsNamed)
    (hstart : step cfg s₀ (.payment c cart) = some s₁) (hs : Isolated cfg c answer s₁ s)
    {trx : Trx} (htrx : (s.clients c).phase.trx = some trx)
    (hpoll : (s.clients c).pollCnt cfg ≤ (s.clients c).sendCQ) (vec : ClientID → UInt32) :
    Progress cfg s₀ c cart answer (s.setClient c (((s.clients c).poll cfg).resume cfg vec c).1 o
      (((s.clients c).poll cfg).resume cfg vec c).2) := by
  obtain ⟨events, posted, hunder, hstage⟩ := h
  have hrest := hunder.accounted.poll hpoll
  have hpolled : ((s.clients c).poll cfg).phase = (s.clients c).phase := rfl
  simp only [Client.resume, hpolled]
  cases hstage with
  | reading pc phase known state kept epoch =>
    have h : Polled cfg s₀ s c cart pc events posted :=
      ⟨hunder, hrest, state.poll, kept.poll, epoch⟩
    simp only [phase]
    cases pc with
    | readSet => exact h.afterReadSet
    | lookup =>
      exact h.afterLookup known (customerNameResp_of_isolated hrest₀ hstart hs phase hrest)
    | customer cID => exact h.afterCustomer known hnames vec
    | snapshot cID => exact h.checkStep rfl known hnames
    | _ => exact absurd known id
  | holding cID phase known state kept =>
    have h : Locked cfg s₀ s c cart cID events posted := ⟨hunder, hrest, state.poll, kept.poll⟩
    rcases phase with phase | phase
    · simp only [phase]
      exact h.afterLocks known hnames
    · simp only [phase]
      exact h.installStep known hnames _
  | reverting phase unfinished =>
    simp only [phase, resume]
    exact progress_stop hunder hrest (.aborted rfl unfinished.not_committed)
  | aborted phase | missing phase =>
    rw [phase] at htrx
    cases htrx
  | committing cID phase known installs =>
    rcases phase with phase | phase | phase
    · simp only [phase]
      exact progress_afterInstall hunder hrest known installs
    · simp only [phase]
      exact progress_stop hunder hrest (.committing cID (.inr (.inr rfl)) known installs)
    · rw [phase] at htrx
      cases htrx

theorem progress_start (hrest : (s₀.clients c).Rested) (hnil : (s₀.clients c).outstanding = [])
    (hstart : step cfg s₀ (.payment c cart) = some s₁) : Progress cfg s₀ c cart answer s₁ := by
  obtain ⟨-, hidle, vec, -, rfl⟩ := start_eq_some hstart
  obtain ⟨vec', heq⟩ := start_eq_post cfg (s₀.clients c) cart vec
  rw [heq]
  have hrest' : Client.Rested { s₀.clients c with t := (s₀.clients c).t + 1 } :=
    hrest.congr rfl rfl rfl
  have hp : Posted cfg { s₀.clients c with t := (s₀.clients c).t + 1 }
      (({ s₀.clients c with
        t := (s₀.clients c).t + 1, phase := .payment cart .readSet,
        localTimestampVector := vec' } : Client).post (.payment cart)
          (startPosts cfg ++ readSetPosts cart)) (.payment cart)
      (startPosts cfg ++ readSetPosts cart) := posted_post rfl rfl rfl rfl rfl rfl
  have hverbs := hp.verbs
  have hreads : ∀ v ∈ (startPosts cfg ++ readSetPosts cart).map (·.verb),
      v.kind = .read ∧ v.fills .history 0 = false ∧
        ∀ x ∈ (Phase.payment cart .readSet).readSet, v.fills x.1.table x.2 = true →
          v = .readHead x.1 x.2 := by
    intro v hv
    obtain ⟨p, hpm, rfl⟩ := List.mem_map.1 hv
    have hv := verb_of_mem_start hpm
    simp only [List.mem_cons, List.not_mem_nil, or_false] at hv
    simp only [Phase.readSet, List.forall_mem_cons, List.not_mem_nil, false_implies, implies_true,
      and_true]
    rcases hv with hv | hv | hv | hv | hv <;> rw [hv] <;> simp [Verb.kind, Verb.fills]
  refine ⟨_, _, (Underway.refl hrest hidle hnil).post (hrest'.post hp (covering_start cfg cart))
    (hp.own rfl (by simp [hnil])) hverbs, ?_⟩
  rw [State.setClient_clients_self]
  refine .reading .readSet rfl trivial ⟨fun v hv => (hreads v hv).1, ?_, rfl⟩ ⟨rfl, rfl, ?_⟩ rfl
  · refine hrest'.copying hverbs (fun x hx => .inl ?_) fun v hv => (hreads v hv).2.2
    simp only [Phase.readSet, List.mem_cons, List.not_mem_nil, or_false] at hx
    refine List.mem_map.2 ?_
    rcases hx with rfl | rfl
    · exact ⟨retrieveWarehouse cart.wID false, by simp [readSetPosts], rfl⟩
    · exact ⟨retrieveDistrict cart.wID cart.dID false, by simp [readSetPosts], rfl⟩
  · intro v hv
    rw [hverbs] at hv
    rcases List.mem_append.1 hv with hv | hv
    · simp [Client.verbs, hnil] at hv
    · exact (hreads v hv).2.1

/-- **Every run in isolation.** -/
theorem progress_of_isolated (hrest : (s₀.clients c).Rested)
    (hnil : (s₀.clients c).outstanding = [])
    (hnames : s₀.RowsNamed)
    (hstart : step cfg s₀ (.payment c cart) = some s₁) (hs : Isolated cfg c answer s₁ s) :
    Progress cfg s₀ c cart answer s := by
  refine hs.invariant (fun t ht => ?_) fun t a t' ht hp hok hstep => ?_
  · rw [ht]
    exact progress_start hrest hnil hstart
  · rcases isolated_cases hok hstep with ⟨trx, vec, htrx, hpoll, rfl⟩ | ⟨i, wr, ho, rfl⟩ | ⟨g, rfl⟩
    · exact hp.cpu hrest hnames hstart ht htrx hpoll vec
    · exact hp.effect ho
    · exact hp.readOracle g

/-! ## The effect -/

/-- The customer and the buffers for which a Payment has its effect: good credit, an array `C_DATA`
that is full of the text the Payment inserts, and a history buffer and a warehouse that happen to
hold the right ids. -/
structure Regular (cfg : Config) (s₀ : State) (c : ClientID) (cart : PaymentCart)
    (cID : UInt32) : Prop where
  credit : (s₀.mem (paidBy cart cID)).head.body.C_CREDIT ≠ "BC"
  data : (historyText cfg cart cID ++ (s₀.mem (paidBy cart cID)).head.body.C_DATA).take dataSize =
    (s₀.mem (paidBy cart cID)).head.body.C_DATA.take dataSize
  warehouse : staleWarehouseID s₀ c = cart.wID
  customer : cID = cart.wID.toUInt32

theorem Left.effect_iff_regular (h : Left cfg s₀ c cart cID s events)
    (htext : ∀ b ∈ historyText cfg cart cID, b ≠ 0) :
    Effect cfg s₀ c cart cID s events ↔ Regular cfg s₀ c cart cID := by
  have hdata : (s.mem (paidBy cart cID)).head.body.C_DATA =
      if (s₀.mem (paidBy cart cID)).head.body.C_CREDIT ≠ "BC" then
        insertHistory (historyText cfg cart cID) (s₀.mem (paidBy cart cID)).head.body.C_DATA
      else (s₀.mem (paidBy cart cID)).head.body.C_DATA := by
    rw [h.customer]
    rfl
  have hunchanged := take_insertHistory_iff htext (historyText_ne_nil cfg cart cID)
    (s₀.mem (paidBy cart cID)).head.body.C_DATA
  constructor
  · intro heffect
    have hcredit : (s₀.mem (paidBy cart cID)).head.body.C_CREDIT ≠ "BC" := by
      intro hbad
      refine heffect.data.2 hbad ?_
      rw [hdata, if_neg (not_not.2 hbad)]
    obtain ⟨tableIndex, historyV, hrows, -, hcustomer, hwarehouse⟩ := heffect.history
    rw [h.history] at hrows
    obtain ⟨-, rfl⟩ : _ ∧ storedHistory cfg s₀ c cart = historyV := by
      simpa [historySlot] using hrows
    refine ⟨hcredit, ?_, (Prod.mk.inj hwarehouse).1, ?_⟩
    · have hsame := not_not.1 fun hne => hcredit (heffect.data.1 hne)
      rw [hdata, if_pos hcredit] at hsame
      exact hunchanged.1 hsame
    · exact ((Prod.mk.inj (Prod.mk.inj hcustomer).2).2).symm
  · intro hregular
    refine ⟨h.warehouse, h.district, ?_, ?_, ?_, ?_⟩
    · rw [h.customer]
      rfl
    · rw [hdata, if_pos hregular.credit]
      exact iff_of_false (not_not.2 (hunchanged.2 hregular.data)) hregular.credit
    · have hrows : rowsStored .history c events = [⟨.history (cfg.getServerNum
          (staleWarehouseID s₀ c)) _, storedHistory cfg s₀ c cart⟩] := h.history
      have hstored : s.mem (.history (cfg.getServerNum (staleWarehouseID s₀ c)) _) =
          { s₀.mem _ with head := storedHistory cfg s₀ c cart } := h.stored
      rw [hregular.warehouse] at hrows hstored
      refine ⟨_, storedHistory cfg s₀ c cart, hrows, hstored, ?_, ?_⟩
      · rw [hregular.customer]
        rfl
      · have hid : (storedHistory cfg s₀ c cart).body.H_W_ID = cart.wID := hregular.warehouse
        rw [hid]
        rfl
    · intro k hk hnot
      refine h.frame k hk ?_
      rintro rfl
      refine hnot (storedHistory cfg s₀ c cart) ?_
      rw [h.history]
      exact List.mem_singleton_self _

/-- What a Payment that has committed leaves behind, or that no customer was found. -/
theorem left_of_committed (hrest : (s₀.clients c).Rested)
    (hnil : (s₀.clients c).outstanding = [])
    (hnames : s₀.RowsNamed)
    (hstart : step cfg s₀ (.payment c cart) = some s₁) (hs : Isolated cfg c answer s₁ s)
    (hidle : (s.clients c).phase = .idle) (hdone : (s.clients c).outstanding = [])
    (htrace : s.trace = events ++ s₀.trace)
    (hcommitted : ∃ e ∈ events, e.finishOf c = some .COMMITTED) :
    customerID cfg (s₀.clients c) cart answer = none ∨
      ∃ cID, customerID cfg (s₀.clients c) cart answer = some cID ∧
        Left cfg s₀ c cart cID s events := by
  obtain ⟨events', posted, hunder, hstage⟩ := progress_of_isolated hrest hnil hnames hstart hs
  obtain rfl : events' = events := List.append_cancel_right (hunder.trace.symm.trans htrace)
  cases hstage with
  | reading pc phase =>
    rw [phase] at hidle
    cases hidle
  | holding cID phase =>
    rcases phase with phase | phase <;> rw [phase] at hidle <;> cases hidle
  | reverting phase =>
    rw [phase] at hidle
    cases hidle
  | aborted phase outcome =>
    obtain ⟨e, he, hfinish⟩ := hcommitted
    exact absurd hfinish (outcome e he)
  | missing phase none => exact .inl none
  | committing cID phase known installs =>
    exact .inr ⟨cID, known, left_of_installs hunder hdone installs⟩

/-- **The effect of a Payment.** For every cart and every state of the database and of the client's
buffers: a Payment that is executed in isolation and commits has its effect iff there is a customer
and everything is regular. -/
theorem effect_iff (hrest : (s₀.clients c).Rested) (hnil : (s₀.clients c).outstanding = [])
    (hnames : s₀.RowsNamed)
    (hstart : step cfg s₀ (.payment c cart) = some s₁) (hs : Isolated cfg c answer s₁ s)
    (hidle : (s.clients c).phase = .idle) (hdone : (s.clients c).outstanding = [])
    (htrace : s.trace = events ++ s₀.trace)
    (hcommitted : ∃ e ∈ events, e.finishOf c = some .COMMITTED)
    (htext : ∀ cID, customerID cfg (s₀.clients c) cart answer = some cID →
      ∀ b ∈ historyText cfg cart cID, b ≠ 0) :
    (∃ cID, customerID cfg (s₀.clients c) cart answer = some cID ∧
        Effect cfg s₀ c cart cID s events) ↔
      ∃ cID, customerID cfg (s₀.clients c) cart answer = some cID ∧
        Regular cfg s₀ c cart cID := by
  rcases left_of_committed hrest hnil hnames hstart hs hidle hdone htrace hcommitted with
    hnone | ⟨cID, hcustomer, hleft⟩
  · simp [hnone]
  · have hiff := hleft.effect_iff_regular (htext cID hcustomer)
    constructor
    · rintro ⟨cID', hcustomer', heffect⟩
      obtain rfl := Option.some.inj (hcustomer.symm.trans hcustomer')
      exact ⟨cID, hcustomer, hiff.1 heffect⟩
    · rintro ⟨cID', hcustomer', hregular⟩
      obtain rfl := Option.some.inj (hcustomer.symm.trans hcustomer')
      exact ⟨cID, hcustomer, hiff.2 hregular⟩

/-! ## Two Payments -/

def byID (cID : UInt32) : PaymentCart where
  wID := 0
  dID := 0
  residentWarehouseID := 0
  customerSelectionMode := .ID
  cLastName := ""
  cID := cID
  hAmount := 10

def dataRow (data : List UInt8) : (k : Key) → Row k.table
  | .customer wID dID cID => { plainRow (.customer wID dID cID) with C_DATA := data }
  | k => plainRow k

/-- The vector was read, and no client has done anything. -/
def populatedData (data : List UInt8) : State :=
  (populate (.shipped 1) (dataRow data) plainBuffer).readOracle 0

theorem names_populatedData (data : List UInt8) (k : Key) :
    k.Names ((populatedData data).mem k).head.body := by
  cases k <;> simp [populatedData, State.readOracle, populate, Record.populate, dataRow, plainRow,
    Key.Names]

theorem rested_populatedData (data : List UInt8) : ((populatedData data).clients 0).Rested :=
  ⟨rfl, rfl, fun _ h => (by cases h), fun _ h => (by cases h)⟩

/-- The requests of a Payment take effect in posting order, and its CPU does not wait. -/
def paymentAlone : List Action :=
  nics 0 4 .nothing ++ [Action.cpu 0] ++ nics 0 2 .nothing ++ [Action.cpu 0] ++ nics 0 3 .nothing ++
    [Action.cpu 0] ++ nics 0 2 .nothing ++ [Action.cpu 0] ++ nics 0 10 .nothing ++ [Action.cpu 0] ++
    nics 0 1 .nothing ++ [Action.cpu 0]

def startedByID (data : List UInt8) (cID : UInt32) : State :=
  (populatedData data).setClient 0 (start (.shipped 1)
    { (populatedData data).clients 0 with t := ((populatedData data).clients 0).t + 1 } (byID cID)
      fun _ => 0) ⟨((populatedData data).clients 0).t + 1, .payment (byID cID)⟩ .begin

theorem exists_paid (data : List UInt8) (cID : UInt32)
    (h : (Transition.runIf (step (.shipped 1)) (fun _ a => decide (a.isolated 0 .nothing))
      (startedByID data cID) paymentAlone).any (fun s => decide (s.committed 0 = true)) = true) :
    ∃ s events, Isolated (.shipped 1) 0 .nothing (startedByID data cID) s ∧
      (s.clients 0).phase = .idle ∧ (s.clients 0).outstanding = [] ∧
      s.trace = events ++ (populatedData data).trace ∧
      ∃ e ∈ events, e.finishOf 0 = some .COMMITTED := by
  refine exists_committed rfl (fun e he => ?_) paymentAlone h
  rw [List.mem_singleton.1 he]
  rfl

theorem take_append_flatten_replicate {text : List UInt8} (h : text ≠ []) (n : ℕ) :
    (text ++ (List.replicate n text).flatten).take n = (List.replicate n text).flatten.take n := by
  have hlen : n ≤ (List.replicate n text).flatten.length := by
    rw [List.length_flatten, List.map_replicate, List.sum_replicate_nat]
    exact Nat.le_mul_of_pos_right n (List.length_pos_iff.2 h)
  have hmore : text ++ (List.replicate n text).flatten =
      (List.replicate n text).flatten ++ text := by
    rw [← List.flatten_cons, ← List.replicate_succ, List.replicate_succ', List.flatten_append]
    simp
  rw [hmore, List.take_append_of_le_length hlen]

theorem historyText_byID (cID : UInt32) (h : cID = 0 ∨ cID = 7) :
    ∀ b ∈ historyText (.shipped 1) (byID cID) cID, b ≠ 0 := by
  rw [historyText, toList_eq_data]
  rcases h with rfl | rfl <;> decide +kernel

/-- A Payment by customer 0 of warehouse 0, whose `C_DATA` holds the text of this very Payment over
and over. -/
theorem effect_customer_zero : ∃ data s events,
    Effect (.shipped 1) (populatedData data) 0 (byID 0) 0 s events := by
  obtain ⟨s, events, hs, hidle, hdone, htrace, hcommitted⟩ := exists_paid
    (List.replicate dataSize (historyText (.shipped 1) (byID 0) 0)).flatten 0 (by decide +kernel)
  have heffect := (effect_iff (rested_populatedData _) rfl (fun k _ => names_populatedData _ k) rfl
    hs hidle hdone htrace hcommitted fun cID hcID => by
      obtain rfl : 0 = cID := Option.some.inj hcID
      exact historyText_byID 0 (.inl rfl)).2 ⟨0, rfl, by decide,
        take_append_flatten_replicate (historyText_ne_nil _ _ _) _, rfl, rfl⟩
  obtain ⟨cID, hcID, heffect⟩ := heffect
  obtain rfl : 0 = cID := Option.some.inj hcID
  exact ⟨_, s, events, heffect⟩

/-- **A Payment without its effect.** Customer 7 has good credit, and `C_DATA` is changed
nevertheless; and the History row names customer 0. -/
theorem not_effect_customer_seven : ∃ s events,
    step (.shipped 1) (populatedData []) (.payment 0 (byID 7)) = some (startedByID [] 7) ∧
    Isolated (.shipped 1) 0 .nothing (startedByID [] 7) s ∧ (s.clients 0).phase = .idle ∧
    (s.clients 0).outstanding = [] ∧ s.trace = events ++ (populatedData []).trace ∧
    (∃ e ∈ events, e.finishOf 0 = some .COMMITTED) ∧
    ¬ Effect (.shipped 1) (populatedData []) 0 (byID 7) 7 s events := by
  obtain ⟨s, events, hs, hidle, hdone, htrace, hcommitted⟩ := exists_paid [] 7
    (by decide +kernel)
  refine ⟨s, events, rfl, hs, hidle, hdone, htrace, hcommitted, fun heffect => ?_⟩
  rcases left_of_committed (rested_populatedData []) rfl (fun k _ => names_populatedData [] k) rfl
    hs hidle hdone htrace hcommitted with hnone | ⟨cID, hcID, hleft⟩
  · cases hnone
  · obtain rfl : 7 = cID := Option.some.inj hcID
    have hregular := (hleft.effect_iff_regular (historyText_byID 7 (.inr rfl))).1 heffect
    exact absurd hregular.customer (by decide)

end RdmaSnapshot.PaymentTransaction
