import RdmaSnapshot.CommitTimestamps
import RdmaSnapshot.Rows

/-!
# Who delivers an order

A Delivery iteration locks the NewOrder row that the index names. The lock is a claim: nobody else
can take it, whatever is written to the row by Deliveries of other orders, until the iteration
gives it back. An iteration that commits never does, so its claim is for ever.

This rests on one condition: no NewOrder inserts its row over one that is claimed.
-/

namespace RdmaSnapshot

open DBExecutor DeliveryTransaction

variable {cfg : Config} {s s' : State} {c c' : ClientID} {cl cl' : Client} {o o' : Owner}
  {l : CpuLabel} {k : Key} {i g srv n : ℕ} {wr : WorkRequest} {answer : IndexAnswer}
  {vec : ClientID → UInt32}

/-- Neither locked nor deleted. -/
def Timestamp.isOpen (ts : Timestamp) : Bool := !ts.isLocked && !ts.isDeleted

theorem Client.isOpen_of_accessible {ts : Timestamp} (h : cl.isRecordAccessible c ts = true) :
    ts.isOpen = true := by
  obtain ⟨hlocked, hdeleted, -⟩ := BaseTransaction.isRecordAccessible_iff.1 h
  simp [Timestamp.isOpen, hlocked, hdeleted]

/-! ## Claims -/

def Event.claim (k : Key) : Event → Option (ClientID × Owner) → Option (ClientID × Owner)
  | .effect c ⟨o, .compareAndSwap k' oldTS _ _, _⟩ (.word existing), p =>
    if k' = k ∧ existing = oldTS then some (c, o) else p
  | .effect _ ⟨_, .writeTimestamp k' _, _⟩ _, p => if k' = k then none else p
  | _, p => p

/-- The transaction whose CAS on row `k` swapped last, unless it was given back. -/
def State.claimant (s : State) (k : Key) : Option (ClientID × Owner) :=
  s.trace.foldr (Event.claim k) none

def HasTried (s : State) (c : ClientID) (o : Owner) (k : Key) : Prop :=
  ∃ oldTS newTS b signaled reply,
    Event.effect c ⟨o, .compareAndSwap k oldTS newTS b, signaled⟩ reply ∈ s.trace

def Event.insertion : Event → Option (ClientID × ℕ × ℕ)
  | .effect c ⟨⟨_, .newOrder _⟩, .writeHead (.newOrder srv n) _, _⟩ _ => some (c, srv, n)
  | _ => none

def State.insertions (s : State) : List (ClientID × ℕ × ℕ) := s.trace.filterMap Event.insertion

namespace State

@[simp] theorem claimant_setClient : (s.setClient c cl o l).claimant k = s.claimant k := rfl

@[simp] theorem claimant_readOracle : (s.readOracle g).claimant k = s.claimant k := rfl

theorem claimant_effect : (s.effect c i wr answer).claimant k =
    Event.claim k (.effect c wr (wr.verb.reply s.mem)) (s.claimant k) := rfl

theorem claimant_effect_of_not_mutates (h : wr.verb.mutates k = false) :
    (s.effect c i wr answer).claimant k = s.claimant k := by
  obtain ⟨o, verb, sig⟩ := wr
  cases verb with
  | compareAndSwap k' | writeTimestamp k' =>
    have hk : k' ≠ k := by simpa [Verb.mutates] using h
    simp [claimant_effect, Event.claim, Verb.reply, hk]
  | _ => rfl

theorem claimant_effect_swap {oldTS newTS : Timestamp} {b : ℕ}
    (hv : wr.verb = .compareAndSwap k oldTS newTS b)
    (hw : (s.mem k).head.writeTimestamp = oldTS) :
    (s.effect c i wr answer).claimant k = some (c, wr.owner) := by
  obtain ⟨o, verb, sig⟩ := wr
  cases hv
  simp [claimant_effect, Event.claim, Verb.reply, hw]

theorem claimant_effect_noSwap {oldTS newTS : Timestamp} {b : ℕ}
    (hv : wr.verb = .compareAndSwap k oldTS newTS b)
    (hw : (s.mem k).head.writeTimestamp ≠ oldTS) :
    (s.effect c i wr answer).claimant k = s.claimant k := by
  obtain ⟨o, verb, sig⟩ := wr
  cases hv
  simp [claimant_effect, Event.claim, Verb.reply, hw]

theorem claimant_effect_writeTimestamp {ts : Timestamp} (hv : wr.verb = .writeTimestamp k ts) :
    (s.effect c i wr answer).claimant k = none := by
  obtain ⟨o, verb, sig⟩ := wr
  cases hv
  simp [claimant_effect, Event.claim]

theorem claimant_effect_writeHead {x : Version (Row k.table)} (hv : wr.verb = .writeHead k x) :
    (s.effect c i wr answer).claimant k = s.claimant k := by
  obtain ⟨o, verb, sig⟩ := wr
  cases hv
  rfl

@[simp] theorem insertions_setClient : (s.setClient c cl o l).insertions = s.insertions := rfl

@[simp] theorem insertions_readOracle : (s.readOracle g).insertions = s.insertions := rfl

theorem mem_insertions_effect {x : ClientID × ℕ × ℕ} (h : x ∈ s.insertions) :
    x ∈ (s.effect c i wr answer).insertions := by
  obtain ⟨e, he, hx⟩ := List.mem_filterMap.1 h
  exact List.mem_filterMap.2 ⟨e, List.mem_cons_of_mem _ he, hx⟩

theorem insertion_mem_effect {cart : NewOrderCart} {x : Version (Row (.newOrder srv n : Key).table)}
    (hv : wr.verb = .writeHead (.newOrder srv n) x) (htrx : wr.owner.trx = .newOrder cart) :
    (c, srv, n) ∈ (s.effect c i wr answer).insertions := by
  obtain ⟨⟨t, trx⟩, verb, sig⟩ := wr
  cases hv
  obtain rfl : trx = .newOrder cart := htrx
  exact List.mem_cons_self

end State

theorem hasTried_setClient : HasTried (s.setClient c' cl o' l) c o k ↔ HasTried s c o k := by
  simp [HasTried]

theorem hasTried_readOracle : HasTried (s.readOracle g) c o k ↔ HasTried s c o k := by
  simp [HasTried]

theorem hasTried_effect : HasTried (s.effect c' i wr answer) c o k ↔ HasTried s c o k ∨
    (c = c' ∧ wr.owner = o ∧ ∃ oldTS newTS b, wr.verb = .compareAndSwap k oldTS newTS b) := by
  constructor
  · rintro ⟨oldTS, newTS, b, signaled, reply, hmem⟩
    rcases List.mem_cons.1 hmem with hev | hmem
    · cases hev
      exact .inr ⟨rfl, rfl, oldTS, newTS, b, rfl⟩
    · exact .inl ⟨oldTS, newTS, b, signaled, reply, hmem⟩
  · rintro (⟨oldTS, newTS, b, signaled, reply, hmem⟩ | ⟨rfl, rfl, oldTS, newTS, b, hv⟩)
    · exact ⟨oldTS, newTS, b, signaled, reply, List.mem_cons_of_mem _ hmem⟩
    · refine ⟨oldTS, newTS, b, wr.signaled, wr.verb.reply s.mem, ?_⟩
      rw [← hv]
      exact List.mem_cons_self

/-! ## The condition -/

/-- A request to insert a NewOrder row takes effect only if nobody claims the row. -/
def InsertsUnclaimed (s : State) : Action → Prop
  | .nic c i _ => ∀ wr, (s.clients c).outstanding[i]? = some wr →
    ∀ cart, wr.owner.trx = .newOrder cart → ∀ srv n x, wr.verb = .writeHead (.newOrder srv n) x →
      s.claimant (.newOrder srv n) = none
  | _ => True

/-! ## What happens to a NewOrder row -/

theorem DeliveryTransaction.eq_of_mem_slots {cart : DeliveryCart} {row : Key} {p : Key × ℕ}
    (hp : p ∈ slots cfg cl cart row) (ht : p.1.table = .newOrder) : p = (row, 0) := by
  simp only [slots, List.mem_append, List.mem_cons, List.not_mem_nil, or_false, List.mem_map] at hp
  rcases hp with (rfl | rfl) | ⟨n, -, rfl⟩
  · cases ht
  · rfl
  · cases ht

/-- What a request of a client that takes effect does to NewOrder row `k`. -/
inductive ClaimStep (cfg : Config) (c : ClientID) (cl : Client) (wr : WorkRequest) (k : Key) : Prop
  /-- The verb is about something else. -/
  | other (hv : wr.verb.mutates k = false)
  /-- The CAS of a Delivery iteration on its NewOrder row. -/
  | tried {cart : DeliveryCart} (hcart : cl.phase.rowCart = some cart)
      (hlocks : cl.phase.isLocks = true) (hk : k = newOrderRow cfg cl cart)
      {newTS : Timestamp}
      (hv : wr.verb = .compareAndSwap k (newOrderV cl).writeTimestamp newTS 0)
      (hopen : (newOrderV cl).writeTimestamp.isOpen = true)
      (hlocked : newTS.isLocked = true)
  /-- A Delivery iteration gives the row back. -/
  | reverted {ts : Timestamp} (hst : cl.phase.status = .reverting)
      (hv : wr.verb = .writeTimestamp k ts)
  /-- A Delivery iteration marks a row as deleted. -/
  | deleted {x : Version (Row k.table)} (hv : wr.verb = .writeHead k x)
      (hx : x.writeTimestamp.isDeleted = true)
  /-- A NewOrder inserts the row. -/
  | inserted {cart : NewOrderCart} {x : Version (Row k.table)} (hv : wr.verb = .writeHead k x)
      (htrx : wr.owner.trx = .newOrder cart)

theorem RowsOK.claimStep (h : RowsOK cfg c cl) (hvet : Vetted cfg c cl)
    (hwr : wr ∈ cl.outstanding) (hk : k.table = .newOrder) : ClaimStep cfg c cl wr k := by
  by_cases hm : wr.verb.mutates k = true
  swap
  · exact .other (by simpa using hm)
  have hrow : wr.verb.onRow = true := by
    rw [Verb.onRow_of_mutates hm]
    cases k <;> first | rfl | cases hk
  have hmem := h.verbs _ (Client.mem_rowsPending.2 ⟨wr, hwr, rfl, hrow⟩)
  have hex := h.executes wr hwr hrow
  have hwrites := h.writes wr hwr
  obtain ⟨owner, verb, sig⟩ := wr
  simp only at hm hmem hwrites
  unfold Client.rowVerbs at hmem
  split at hmem
  · rename_i cart cts assignedOID hph
    obtain ⟨p, hp, rfl⟩ := List.mem_map.1 hmem
    obtain rfl : p.1 = k := of_decide_eq_true hm
    have htrx := hex.trx
    rw [hph] at htrx
    exact .inserted rfl (Option.some.inj htrx).symm
  · rename_i cart dID cID cts hph
    obtain ⟨p, hp, rfl⟩ := List.mem_map.1 hmem
    obtain rfl : p.1 = k := of_decide_eq_true hm
    obtain rfl := eq_of_mem_slots hp hk
    have hacc := hvet.accepted (by rw [hph]; rfl)
      (newOrderV cl).writeTimestamp
      (by simp [Client.readWords, hph, readWords])
    have hcopy : cl.copy (newOrderRow cfg cl cart) 0 = newOrderV cl := by
      simp only [Client.copy, Client.buffers, hph]
      rfl
    have hverb : cl.lockVerb c cts (newOrderRow cfg cl cart, 0) =
        .compareAndSwap (newOrderRow cfg cl cart)
          (newOrderV cl).writeTimestamp
          (lockTimestamp (newOrderV cl).writeTimestamp c cts) 0 := by
      simp only [Client.lockVerb, hcopy]
    exact .tried (by rw [hph]; rfl) (by rw [hph]; rfl) rfl hverb
      (Client.isOpen_of_accessible hacc) (by simp [lockTimestamp])
  · rename_i cart dID hph
    obtain ⟨p, hp, rfl⟩ := List.mem_map.1 hmem
    obtain rfl : p.1 = k := of_decide_eq_true hm
    exact .reverted (by rw [hph]; rfl) rfl
  · rename_i cart dID hph
    obtain ⟨p, hp, rfl⟩ := List.mem_map.1 hmem
    obtain rfl : p.1 = k := of_decide_eq_true hm
    have htrx := hex.trx
    rw [hph] at htrx
    exact .deleted rfl ((hwrites _ _ rfl hrow).2 hk cart dID (Option.some.inj htrx).symm)
  · cases hmem

/-! ## The invariant -/

/-- How client `c`, in state `cl`, stands with the NewOrder row of its Delivery iteration. -/
structure Claims (cfg : Config) (s : State) (c : ClientID) (cl : Client) : Prop where
  tried : cl.phase.status ≠ .idle → ∀ o srv n, cl.Executes o → HasTried s c o (.newOrder srv n) →
    ∃ cart, cl.phase.rowCart = some cart ∧
      .newOrder srv n = newOrderRow cfg cl cart
  locking : ∀ cart, cl.phase.rowCart = some cart → cl.phase.isLocks = true → ∀ o, cl.Executes o →
    (∃ oldTS newTS b, .compareAndSwap (newOrderRow cfg cl cart) oldTS newTS b ∈ cl.rowsPending) ∨
    (newOrderLocked cl = true →
      s.claimant (newOrderRow cfg cl cart) = some (c, o))
  reverting : ∀ wr ∈ cl.outstanding, ∀ srv n ts, wr.verb = .writeTimestamp (.newOrder srv n) ts →
    s.claimant (.newOrder srv n) = some (c, wr.owner)

/-- The invariant: open rows are unclaimed, rows are inserted before they are open or claimed, and
an iteration that commits claims its row. -/
structure ClaimsOK (cfg : Config) (s : State) : Prop where
  unclaimed : ∀ srv n, (s.mem (.newOrder srv n)).head.writeTimestamp.isOpen = true →
    s.claimant (.newOrder srv n) = none
  inserted : ∀ srv n, (s.mem (.newOrder srv n)).head.writeTimestamp.isOpen = true ∨
    s.claimant (.newOrder srv n) ≠ none → ∃ c, (c, srv, n) ∈ s.insertions
  clients : ∀ c, Claims cfg s c (s.clients c)
  committed : ∀ c o srv n, Committed s c (s.clients c) o → HasTried s c o (.newOrder srv n) →
    s.claimant (.newOrder srv n) = some (c, o)

theorem Phase.cls_of_rowCart {ph : Phase} {cart : DeliveryCart} (h : ph.rowCart = some cart) :
    ph.cls = .delivery := by
  cases ph <;> first | rfl | cases h

theorem DeliveryTransaction.newOrderLocked_iff (cfg : Config) (cart : DeliveryCart)
    (hcls : cl.phase.cls = .delivery) : newOrderLocked cl = true ↔
      cl.lockResult (newOrderRow cfg cl cart) 0 =
        (cl.copy (newOrderRow cfg cl cart) 0).writeTimestamp := by
  simp only [newOrderLocked, Timestamp.isEqual_iff, Client.lockResult, Client.copy, Client.buffers,
    hcls]
  rfl

/-- The WRITE that gives a NewOrder row back is posted for the row the index named, if the CAS on
it swapped. -/
theorem exists_of_mem_rowVerbs {v : Verb} (hmem : v ∈ cl.rowVerbs cfg c) {ts : Timestamp}
    (hv : v = .writeTimestamp (.newOrder srv n) ts) :
    ∃ cart, cl.phase.rowCart = some cart ∧ cl.phase.status = .reverting ∧
      .newOrder srv n = newOrderRow cfg cl cart ∧
      newOrderLocked cl = true := by
  subst hv
  rcases Client.of_mem_rowVerbs hmem with ⟨p, hp⟩ |
    ⟨cart, dID, p, hslot, ⟨_, _, -, heq⟩ | ⟨hph, heq, hlocked⟩⟩
  · cases hp
  · cases heq
  · have hkey : p.1 = .newOrder srv n := (Verb.writeTimestamp.inj heq).1.symm
    obtain rfl := eq_of_mem_slots hslot (congrArg Key.table hkey)
    have hcart : cl.phase.rowCart = some cart := by rw [hph]; rfl
    exact ⟨cart, hcart, by rw [hph]; rfl, hkey.symm,
      (newOrderLocked_iff cfg cart (Phase.cls_of_rowCart hcart)).2 hlocked⟩

/-! ### Steps of the client's CPU -/

section

variable {posts : List Post} (h : Claims cfg s c cl) (hstep : ClientStep cfg vec c cl cl' o l)
  (hadv : AdvanceBy cfg cl cl' o l posts)

include h hstep hadv

theorem Claims.tried_before (hcourse : Course cfg s c cl) (hst : cl'.phase.status ≠ .idle)
    (htried : HasTried s c o (.newOrder srv n)) :
    cl.Executes o ∧ ∃ cart, cl.phase.rowCart = some cart ∧
      .newOrder srv n = newOrderRow cfg cl cart := by
  obtain ⟨oldTS, newTS, b, signaled, reply, hmem⟩ := id htried
  have hle : o.t ≤ cl.t := hcourse.number _ (.inr ⟨reply, hmem⟩)
  have hbegin := (hadv.not_begin hle hadv.owner).1
  have hne : cl.phase.status ≠ .idle := fun hidle => hst (hadv.of_idle hbegin hidle).2
  have hex := hadv.executes_before hstep.trx_of_not_idle hne
  exact ⟨hex, h.tried hne o srv n hex htried⟩

theorem Claims.step (hcourse : Course cfg s c cl) (hrows : RowsOK cfg c cl)
    (hset : Settled cfg cl) : Claims cfg (s.setClient c cl' o l) c cl' := by
  have hnil := hrows.settled hset
  have hrowStep : RowStep cfg cl cl' := hstep.rowStep
  refine ⟨fun hst o' srv n hex htried => ?_, fun cart hcart hlocks o' hex => .inl ?_,
    fun wr hwr srv n ts hv => ?_⟩
  · obtain rfl := hex.unique (hadv.executes hst)
    obtain ⟨-, cart, hcart, hrow⟩ := h.tried_before hstep hadv hcourse hst
      (hasTried_setClient.1 htried)
    cases hrowStep with
    | none _ hover =>
      rcases hover with hidle | hnone
      · exact absurd hidle hst
      · rw [hcart] at hnone
        cases hnone
    | lock _ hreading => exact absurd hreading (Phase.trx_of_rowCart hcart).2.2
    | giveUp cart' hcart' _ h' _ _ _ hindex | commit cart' hcart' _ h' _ _ hindex
    | proceed cart' hcart' _ h' _ hindex =>
      rw [hcart] at hcart'
      cases hcart'
      exact ⟨cart, h', hrow.trans (newOrderRow_congr hindex).symm⟩
  · obtain ⟨dID, cID, cts, hph⟩ := Phase.eq_locks hcart hlocks
    rw [hstep.rowsPending hnil, Client.rowVerbs, hph]
    refine ⟨_, _, _, List.mem_map.2 ⟨(newOrderRow cfg cl' cart, 0), ?_, rfl⟩⟩
    simp [rowSlots, slots]
  · have hmem : wr.verb ∈ cl'.rowVerbs cfg c := by
      rw [← hstep.rowsPending hnil]
      exact Client.mem_rowsPending.2 ⟨wr, hwr, rfl, by rw [hv]; rfl⟩
    have hex := (hrows.step hstep hset).executes wr hwr (by rw [hv]; rfl)
    obtain ⟨cart, hcart, hst, hrow, hlocked⟩ := exists_of_mem_rowVerbs hmem hv
    cases hrowStep with
    | none h' => simp [hcart] at h'
    | lock _ _ _ hlocks => simp [Phase.status_of_isLocks hlocks] at hst
    | commit _ _ _ _ hst' | proceed _ _ _ _ hst' => simp [hst'] at hst
    | giveUp cart' hcart' hlocks h' _ hcopy hresult hindex =>
      rw [hcart] at h'
      cases h'
      have hex' : cl.Executes wr.owner := by
        obtain rfl := hex.unique (hadv.executes (by simp [hst]))
        exact hadv.executes_before hstep.trx_of_not_idle
          (by simp [Phase.status_of_isLocks hlocks])
      have hlocked' : newOrderLocked cl = true := by
        rw [newOrderLocked_iff cfg cart (Phase.cls_of_rowCart hcart),
          hresult, hcopy, newOrderRow_congr hindex] at hlocked
        exact (newOrderLocked_iff cfg cart (Phase.cls_of_rowCart hcart')).2
          hlocked
      rcases h.locking cart hcart' hlocks wr.owner hex' with ⟨_, _, _, hpend⟩ | hclaim
      · rw [hnil] at hpend
        cases hpend
      · rw [hrow, newOrderRow_congr hindex]
        exact hclaim hlocked'

theorem Claims.committed_step (hnil : cl.rowsPending = [])
    (hbefore : ∀ o srv n, Committed s c cl o → HasTried s c o (.newOrder srv n) →
      s.claimant (.newOrder srv n) = some (c, o))
    (hcommit : Committed (s.setClient c cl' o l) c cl' o')
    (htried : HasTried s c o' (.newOrder srv n)) : s.claimant (.newOrder srv n) = some (c, o') := by
  rcases hcommit.of_setClient hadv hstep.trx_of_not_idle with hcommit | ⟨rfl, hex, hst⟩
  · exact hbefore o' srv n hcommit htried
  have hne : cl.phase.status ≠ .idle := by
    rcases hst with hst | ⟨hst, -⟩ <;> simp [hst]
  obtain ⟨cart, hcart, hrow⟩ := h.tried hne o' srv n hex htried
  obtain ⟨hst, hst'⟩ := hst.resolve_left (Phase.trx_of_rowCart hcart).2.2
  cases hstep.rowStep with
  | none _ hover =>
    rcases hover with hidle | hnone
    · simp [hidle] at hst'
    · simp [hcart] at hnone
  | lock _ hreading => simp [hreading] at hst
  | giveUp _ _ _ _ hreverting => simp [hreverting] at hst'
  | proceed _ _ hcommitting => simp [hcommitting] at hst
  | commit cart' hcart' hlocks _ _ hwon =>
    rw [hcart] at hcart'
    cases hcart'
    rw [hrow]
    rcases h.locking cart hcart hlocks o' hex with ⟨_, _, _, hpend⟩ | hclaim
    · rw [hnil] at hpend
      cases hpend
    · have hslot : (newOrderRow cfg cl cart, 0) ∈ rowSlots cfg cl cart := by
        simp [rowSlots, slots]
      exact hclaim ((newOrderLocked_iff cfg cart
        (Phase.cls_of_rowCart hcart)).2 (hwon _ hslot))

end

theorem Claims.congr (h : Claims cfg s c cl)
    (htried : ∀ o srv n, HasTried s' c o (.newOrder srv n) → HasTried s c o (.newOrder srv n))
    (hclaim : ∀ o srv n, s.claimant (.newOrder srv n) = some (c, o) →
      s'.claimant (.newOrder srv n) = some (c, o)) : Claims cfg s' c cl := by
  refine ⟨fun hst o srv n hex ht => h.tried hst o srv n hex (htried o srv n ht),
    fun cart hcart hlocks o hex => ?_,
    fun wr hwr srv n ts hv => hclaim _ _ _ (h.reverting wr hwr srv n ts hv)⟩
  exact (h.locking cart hcart hlocks o hex).imp_right fun hlocked hwon =>
    hclaim _ _ _ (hlocked hwon)

theorem ClaimsOK.setClient (h : ClaimsOK cfg s) (hinv : Inv cfg s) (hcourses : Courses cfg s)
    (hrows : RowsOK cfg c (s.clients c)) (hstep : ClientStep cfg vec c (s.clients c) cl o l) :
    ClaimsOK cfg (s.setClient c cl o l) := by
  have hset := hstep.settled (hinv.clients c)
  obtain ⟨posts, hadv⟩ := hstep.advance
  refine ⟨h.unclaimed, h.inserted, fun c' => ?_, fun c' o' srv n hcommit htried => ?_⟩
  · by_cases hc : c' = c
    · subst hc
      rw [State.setClient_clients_self]
      exact (h.clients c').step hstep hadv (hcourses.clients c') hrows hset
    · rw [State.setClient_clients_of_ne hc]
      exact (h.clients c').congr (fun o' srv n => hasTried_setClient.1)
        fun o' srv n hclaim => hclaim
  · rw [hasTried_setClient] at htried
    by_cases hc : c' = c
    · subst hc
      rw [State.setClient_clients_self] at hcommit
      exact (h.clients c').committed_step hstep hadv (hrows.settled hset)
        (h.committed c') hcommit htried
    · rw [State.setClient_clients_of_ne hc] at hcommit
      refine h.committed c' o' srv n (hcommit.imp_left fun hmem => ?_) htried
      rcases List.mem_cons.1 hmem with hev | hmem
      · cases hev
        exact absurd rfl hc
      · exact hmem

/-! ### Effects -/

/-- What an effect means for the claim on a NewOrder row. -/
inductive ClaimChange (s s' : State) (c : ClientID) (wr : WorkRequest) (srv n : ℕ) : Prop
  | kept (hclaim : s'.claimant (.newOrder srv n) = s.claimant (.newOrder srv n))
      (hopen : (s'.mem (.newOrder srv n)).head.writeTimestamp.isOpen = true →
        (s.mem (.newOrder srv n)).head.writeTimestamp.isOpen = true ∨
          (s.claimant (.newOrder srv n) = none ∧ (c, srv, n) ∈ s'.insertions))
  | taken (hbefore : s.claimant (.newOrder srv n) = none)
      (hinserted : ∃ c', (c', srv, n) ∈ s.insertions)
      (hclosed : (s'.mem (.newOrder srv n)).head.writeTimestamp.isOpen = false)
      (hclaim : s'.claimant (.newOrder srv n) = some (c, wr.owner))
  | returned (hst : (s.clients c).phase.status = .reverting)
      (hon : wr.verb.mutates (.newOrder srv n) = true)
      (hbefore : s.claimant (.newOrder srv n) = some (c, wr.owner))
      (hclaim : s'.claimant (.newOrder srv n) = none)

section

variable (h : ClaimsOK cfg s) (hrows : RowsOK cfg c (s.clients c))
  (ho : (s.clients c).Oldest cfg i wr)

include h hrows ho

theorem ClaimsOK.change (hvet : Vetted cfg c (s.clients c))
    (hok : InsertsUnclaimed s (.nic c i answer)) :
    ClaimChange s (s.effect c i wr answer) c wr srv n := by
  have hwr : wr ∈ (s.clients c).outstanding := List.mem_of_getElem? ho.getElem
  cases hrows.claimStep hvet hwr (k := .newOrder srv n) rfl with
  | other hv =>
    refine .kept (State.claimant_effect_of_not_mutates hv) fun hopen => .inl ?_
    rwa [State.effect_mem, Verb.apply_of_not_mutates hv (by simp)] at hopen
  | tried _ _ _ hv hopen hlocked =>
    by_cases hw : (s.mem (.newOrder srv n)).head.writeTimestamp =
        (newOrderV (s.clients c)).writeTimestamp
    · have hword : (s.mem (.newOrder srv n)).head.writeTimestamp.isOpen = true := by rwa [hw]
      refine .taken (h.unclaimed _ _ hword) (h.inserted _ _ (.inl hword)) ?_
        (State.claimant_effect_swap hv hw)
      simp [hv, Verb.apply, hw, Timestamp.isOpen, hlocked]
    · refine .kept (State.claimant_effect_noSwap hv hw) fun hopen => .inl ?_
      simpa [hv, Verb.apply, hw] using hopen
  | reverted hst hv =>
    exact .returned hst (by simp [hv, Verb.mutates])
      ((h.clients c).reverting wr hwr srv n _ hv) (State.claimant_effect_writeTimestamp hv)
  | deleted hv hx =>
    refine .kept (State.claimant_effect_writeHead hv) fun hopen => ?_
    simp [hv, Verb.apply, Timestamp.isOpen, hx] at hopen
  | inserted hv htrx =>
    refine .kept (State.claimant_effect_writeHead hv) fun _ => .inr ⟨?_, ?_⟩
    · exact hok wr ho.getElem _ htrx srv n _ hv
    · exact State.insertion_mem_effect hv htrx

end

theorem Phase.asksIndex_of_rowCart {ph : Phase} {cart : DeliveryCart}
    (h : ph.rowCart = some cart) : ph.asksIndex = false := by
  cases ph with
  | delivery cart' dID pc => cases pc <;> first | rfl | cases h
  | _ => cases h

theorem ClientOK.newOrderRow_land {cart : DeliveryCart} (hok : ClientOK cfg s c cl)
    (ho : cl.Oldest cfg i wr)
    (hcart : cl.phase.rowCart = some cart) :
    newOrderRow cfg ((s.land wr answer cl).complete i wr) cart = newOrderRow cfg cl cart :=
  newOrderRow_congr (hok.index_land ho (Phase.asksIndex_of_rowCart hcart))

theorem RowsOK.eq_of_swap (hrows : RowsOK cfg c cl) (hvet : Vetted cfg c cl)
    (hwr : wr ∈ cl.outstanding) (hk : k.table = .newOrder) {oldTS newTS : Timestamp} {b : ℕ}
    (hv : wr.verb = .compareAndSwap k oldTS newTS b) :
    ∃ cart, cl.phase.rowCart = some cart ∧ cl.phase.isLocks = true ∧ b = 0 ∧
      k = newOrderRow cfg cl cart ∧
      oldTS = (newOrderV cl).writeTimestamp := by
  cases hrows.claimStep hvet hwr hk with
  | other h' => simp [hv, Verb.mutates] at h'
  | tried hcart hlocks hk h' =>
    rw [hv] at h'
    cases h'
    exact ⟨_, hcart, hlocks, rfl, hk, rfl⟩
  | reverted _ h' => simp [hv] at h'
  | deleted h' | inserted h' => simp [hv] at h'

section

variable (hok : ClientOK cfg s c (s.clients c)) (hrows : RowsOK cfg c (s.clients c))
  (hvet : Vetted cfg c (s.clients c)) (ho : (s.clients c).Oldest cfg i wr)
  (hchange : ∀ srv n, ClaimChange s (s.effect c i wr answer) c wr srv n)

include hok hrows hvet ho hchange

theorem Claims.locking_effect (h : Claims cfg s c (s.clients c)) {cart : DeliveryCart}
    (hcart : (s.clients c).phase.rowCart = some cart)
    (hlocks : (s.clients c).phase.isLocks = true) (hex : (s.clients c).Executes o) :
    let cl' := (s.land wr answer (s.clients c)).complete i wr
    (∃ oldTS newTS b, .compareAndSwap (newOrderRow cfg cl' cart) oldTS newTS b ∈ cl'.rowsPending) ∨
    (newOrderLocked cl' = true →
      (s.effect c i wr answer).claimant (newOrderRow cfg cl' cart) = some (c, o)) := by
  intro cl'
  have hwr : wr ∈ (s.clients c).outstanding := List.mem_of_getElem? ho.getElem
  have hrow : newOrderRow cfg cl' cart =
      newOrderRow cfg (s.clients c) cart := hok.newOrderRow_land ho hcart
  have hcls := Phase.cls_of_rowCart hcart
  have hcopy : cl'.copy (newOrderRow cfg (s.clients c) cart) 0 =
      (s.clients c).copy (newOrderRow cfg (s.clients c) cart) 0 :=
    hok.copy_land ho hlocks
  have hcls' : cl'.phase.cls = .delivery := hcls
  have hiff' := newOrderLocked_iff cfg cart hcls'
  have hiff := newOrderLocked_iff cfg cart hcls
  rw [hrow, hcopy] at hiff'
  rw [hrow]
  by_cases hswap : ∃ oldTS newTS b, wr.verb =
      .compareAndSwap (newOrderRow cfg (s.clients c) cart) oldTS newTS b
  · obtain ⟨oldTS, newTS, b, hv⟩ := hswap
    obtain ⟨cart', hcart', -, rfl, -, rfl⟩ := hrows.eq_of_swap hvet hwr rfl hv
    refine .inr fun hlocked => ?_
    obtain rfl := hex.unique (hrows.executes wr hwr (by rw [hv]; rfl))
    refine State.claimant_effect_swap hv ?_
    have hresult : cl'.lockResult (newOrderRow cfg (s.clients c) cart) 0 =
        (s.mem (newOrderRow cfg (s.clients c) cart)).head.writeTimestamp := by
      rw [Client.lockResult, hok.buffers_land ho, hv]
      simp [State.landLocal]
    rw [← hresult, hiff'.1 hlocked, Client.copy, Client.buffers, hcls]
    rfl
  · have hresult : cl'.lockResult (newOrderRow cfg (s.clients c) cart) 0 =
        (s.clients c).lockResult (newOrderRow cfg (s.clients c) cart) 0 := by
      rw [Client.lockResult, hok.buffers_land ho]
      refine State.landLocal_lockRegion_of_ne fun k' old new b' hv => ?_
      by_contra hne
      push Not at hne
      obtain ⟨cart', hcart', -, -, rfl, -⟩ := hrows.eq_of_swap hvet hwr hne.1.symm hv
      rw [hcart] at hcart'
      cases hcart'
      exact hswap ⟨_, _, _, hv⟩
    refine (h.locking cart hcart hlocks o hex).imp ?_ fun hclaim hlocked => ?_
    · rintro ⟨oldTS, newTS, b, hpend⟩
      obtain ⟨wr', hwr', hv', hon⟩ := Client.mem_rowsPending.1 hpend
      refine ⟨oldTS, newTS, b, Client.mem_rowsPending.2 ⟨wr', ho.mem_eraseIdx hwr' ?_, hv', hon⟩⟩
      rintro rfl
      exact hswap ⟨_, _, _, hv'⟩
    · rw [hiff', hresult, ← hiff] at hlocked
      have hclaim := hclaim hlocked
      cases hchange _ _ with
      | kept hkept => exact hkept.trans hclaim
      | taken hnone =>
        rw [newOrderRow, newOrderKey, hnone] at hclaim
        cases hclaim
      | returned hst => simp [Phase.status_of_isLocks hlocks] at hst

theorem Claims.effect (h : Claims cfg s c (s.clients c)) :
    Claims cfg (s.effect c i wr answer) c ((s.land wr answer (s.clients c)).complete i wr) := by
  have hwr : wr ∈ (s.clients c).outstanding := List.mem_of_getElem? ho.getElem
  refine ⟨fun hst o srv n hex htried => ?_, fun cart hcart hlocks o hex => ?_,
    fun wr' hwr' srv n ts hv => ?_⟩
  · have hex' : (s.clients c).Executes o := ⟨hex.trx, hex.number⟩
    rcases hasTried_effect.1 htried with htried | ⟨-, rfl, oldTS, newTS, b, hv⟩
    · obtain ⟨cart, hcart, hrow⟩ := h.tried hst o srv n hex' htried
      exact ⟨cart, hcart, hrow.trans (hok.newOrderRow_land ho hcart).symm⟩
    · obtain ⟨cart, hcart, -, -, hrow, -⟩ := hrows.eq_of_swap hvet hwr rfl hv
      exact ⟨cart, hcart, hrow.trans (hok.newOrderRow_land ho hcart).symm⟩
  · exact h.locking_effect hok hrows hvet ho hchange hcart hlocks ⟨hex.trx, hex.number⟩
  · have hclaim := h.reverting wr' (List.mem_of_mem_eraseIdx hwr') srv n ts hv
    cases hchange srv n with
    | kept hkept => rw [hkept, hclaim]
    | taken hnone => simp [hnone] at hclaim
    | returned _ hon =>
      -- two verbs on NewOrder rows are never outstanding together
      have hcount := Fifo.countP_eraseIdx (·.verb.onNewOrder) ho.getElem
      rw [if_pos (Verb.onNewOrder_of_mutates hon rfl)] at hcount
      have hpos : 0 < ((s.clients c).outstanding.eraseIdx i).countP (·.verb.onNewOrder) :=
        List.countP_pos_iff.2 ⟨wr', hwr', by rw [hv]; rfl⟩
      have hsingle := hrows.single
      omega

end

/-- A transaction whose verbs on NewOrder rows are outstanding does not commit, unless it inserts
or deletes. -/
theorem not_committed_of_executes (hs : Reachable cfg s) (hex : (s.clients c).Executes o)
    (hst : (s.clients c).phase.status ≠ .idle) (hst' : (s.clients c).phase.status ≠ .committing) :
    ¬ Committed s c (s.clients c) o := by
  rintro (hmem | ⟨-, hcommitting⟩)
  · exact hst ((over_of_finish hs hmem).2 hex.number)
  · exact hst' hcommitting

theorem ClaimsOK.effect (h : ClaimsOK cfg s) (hs : Reachable cfg s) (hwrap : NoWrap cfg s)
    (ho : (s.clients c).Oldest cfg i wr)
    (hok : InsertsUnclaimed s (.nic c i answer)) : ClaimsOK cfg (s.effect c i wr answer) := by
  have hwr : wr ∈ (s.clients c).outstanding := List.mem_of_getElem? ho.getElem
  have hrows := rowsOK_of_reachable hs hwrap c
  have hvet := vetted_of_reachable hs hwrap c
  have hchange : ∀ srv n, ClaimChange s (s.effect c i wr answer) c wr srv n :=
    fun srv n => h.change hrows ho hvet hok
  refine ⟨fun srv n hopen => ?_, fun srv n hor => ?_, fun c' => ?_,
    fun c' o srv n hcommit htried => ?_⟩
  · cases hchange srv n with
    | kept hclaim hbefore =>
      rw [hclaim]
      exact (hbefore hopen).elim (h.unclaimed srv n) fun hins => hins.1
    | taken _ _ hclosed =>
      rw [hclosed] at hopen
      cases hopen
    | returned _ _ _ hclaim => exact hclaim
  · have hmono : (∃ c', (c', srv, n) ∈ s.insertions) →
        ∃ c', (c', srv, n) ∈ (s.effect c i wr answer).insertions :=
      fun ⟨c', hc'⟩ => ⟨c', State.mem_insertions_effect hc'⟩
    cases hchange srv n with
    | kept hclaim hbefore =>
      rw [hclaim] at hor
      rcases hor with hopen | hne
      · rcases hbefore hopen with hopen | ⟨-, hins⟩
        · exact hmono (h.inserted srv n (.inl hopen))
        · exact ⟨c, hins⟩
      · exact hmono (h.inserted srv n (.inr hne))
    | taken _ hins => exact hmono hins
    | returned _ _ hbefore => exact hmono (h.inserted srv n (.inr (by simp [hbefore])))
  · by_cases hc : c' = c
    · subst hc
      rw [State.effect_clients_self]
      exact (h.clients c').effect ((inv_of_reachable hs hwrap).clients c') hrows hvet ho hchange
    · rw [State.effect_clients_of_ne hc]
      refine (h.clients c').congr (fun o srv n htried => ?_) fun o srv n hclaim => ?_
      · exact (hasTried_effect.1 htried).resolve_right fun hnew => hc hnew.1
      · cases hchange srv n with
        | kept hkept => exact hkept.trans hclaim
        | taken hnone => simp [hnone] at hclaim
        | returned _ _ hbefore =>
          rw [hbefore] at hclaim
          cases hclaim
          exact absurd rfl hc
  · replace hcommit := hcommit.of_unmoved (.effect ho)
    rcases hasTried_effect.1 htried with htried | ⟨rfl, rfl, oldTS, newTS, b, hv⟩
    · have hclaim := h.committed c' o srv n hcommit htried
      cases hchange srv n with
      | kept hkept => exact hkept.trans hclaim
      | taken hnone => simp [hnone] at hclaim
      | returned hst hon hbefore =>
        rw [hbefore] at hclaim
        cases hclaim
        have hex := hrows.executes wr hwr
          (Verb.onRow_of_onNewOrder (Verb.onNewOrder_of_mutates hon rfl))
        exact absurd hcommit
          (not_committed_of_executes hs hex (by simp [hst]) (by simp [hst]))
    · obtain ⟨cart, -, hlocks, -⟩ := hrows.eq_of_swap hvet hwr rfl hv
      have hst := Phase.status_of_isLocks hlocks
      have hex := hrows.executes wr hwr (by rw [hv]; rfl)
      exact absurd hcommit (not_committed_of_executes hs hex (by simp [hst]) (by simp [hst]))

theorem Init.claimsOK (h : Init cfg s) : ClaimsOK cfg s := by
  have hclaim : ∀ k, s.claimant k = none := by simp [State.claimant, h.trace]
  have hclosed : ∀ srv n, (s.mem (.newOrder srv n)).head.writeTimestamp.isOpen = false := by
    intro srv n
    rw [h.mem, (h.records _).head, if_neg (by simp [Table.isPopulated])]
    rfl
  have htried : ∀ c o k, ¬ HasTried s c o k := by simp [HasTried, h.trace]
  refine ⟨fun srv n _ => hclaim _, fun srv n hor => ?_, fun c => ?_,
    fun c o srv n _ ht => absurd ht (htried c o _)⟩
  · simp [hclosed, hclaim] at hor
  · have hphase := (h.clients c).phase
    refine ⟨fun _ o srv n _ ht => absurd ht (htried c o _), fun cart hcart => ?_, ?_⟩
    · simp [hphase, Phase.rowCart] at hcart
    · simp [(h.clients c).outstanding]

theorem ClaimsOK.readOracle (h : ClaimsOK cfg s) : ClaimsOK cfg (s.readOracle g) := by
  refine ⟨h.unclaimed, h.inserted, fun c => ?_, fun c o srv n hcommit htried => ?_⟩
  · exact (h.clients c).congr (fun o srv n => hasTried_readOracle.1) fun o srv n hclaim => hclaim
  · refine h.committed c o srv n (hcommit.imp_left fun hmem => ?_) (hasTried_readOracle.1 htried)
    simpa using hmem

/-- **An iteration that commits is the claimant of its NewOrder row**, in every state reached by
steps that insert only unclaimed rows, as long as no commit timestamp has wrapped. -/
theorem claims_of_reachableBy (h : ReachableBy cfg InsertsUnclaimed s) (hwrap : NoWrap cfg s) :
    ClaimsOK cfg s := by
  induction h with
  | start hs => exact hs.claimsOK
  | next hs hok ha ih =>
    have hwrap' := hwrap.of_step ha
    have hreach := hs.reachable
    rcases step_cases ha with ⟨c, vec, cl, o, l, -, hstep, rfl⟩ |
      ⟨c, i, wr, answer, rfl, ho, rfl⟩ | ⟨g, -, rfl⟩
    · exact (ih hwrap').setClient (inv_of_reachable hreach hwrap')
        (courses_of_reachable hreach hwrap') (rowsOK_of_reachable hreach hwrap' c) hstep
    · exact (ih hwrap').effect hreach hwrap' ho hok
    · exact (ih hwrap').readOracle

end RdmaSnapshot
