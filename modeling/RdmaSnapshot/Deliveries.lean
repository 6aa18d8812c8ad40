import RdmaSnapshot.Claims
import RdmaSnapshot.OrderRing

/-!
# At-most-once delivery

The NewOrder rows of a client are stored one after the other in its ring, so as long as there are
not more of them than the ring has slots, every row is inserted once. A row that a Delivery
iteration has claimed is then never inserted again, and no order is delivered twice.
-/

namespace RdmaSnapshot

open DBExecutor

variable {cfg : Config} {s s' : State} {c c' : ClientID} {cl cl' : Client} {o o' : Owner}
  {l : CpuLabel} {i g srv n : ℕ} {wr : WorkRequest} {answer : IndexAnswer}
  {vec : ClientID → UInt32}

/-! ## Insertions -/

/-- The NewOrder rows that client `c` has inserted, by their indices in the table, newest first. -/
def State.storedBy (s : State) (c : ClientID) : List ℕ :=
  s.insertions.filterMap fun x => if x.1 = c then some x.2.2 else none

def WorkRequest.inserts : WorkRequest → Bool
  | ⟨⟨_, .newOrder _⟩, .writeHead (.newOrder _ _) _, _⟩ => true
  | _ => false

def Client.insertCnt (cl : Client) : ℕ := cl.outstanding.countP WorkRequest.inserts

def Phase.isInstall : Phase → Bool
  | .newOrder _ (.install _ _) => true
  | _ => false

/-- The NewOrder has posted its rows and has yet to end. -/
def Phase.stores : Phase → Bool
  | .newOrder _ (.install _ _) | .newOrder _ .register | .newOrder _ .publish => true
  | _ => false

theorem WorkRequest.inserts_iff : wr.inserts = true ↔
    (∃ cart, wr.owner.trx = .newOrder cart) ∧
      ∃ srv n x, wr.verb = .writeHead (.newOrder srv n) x := by
  constructor
  · intro h
    unfold inserts at h
    split at h
    · exact ⟨⟨_, rfl⟩, _, _, _, rfl⟩
    · cases h
  · rintro ⟨⟨cart, htrx⟩, srv, n, x, hv⟩
    obtain ⟨⟨t, trx⟩, verb, sig⟩ := wr
    obtain rfl : trx = .newOrder cart := htrx
    cases hv
    rfl

theorem State.storedBy_effect_of_not_inserts (h : wr.inserts = false) :
    (s.effect c' i wr answer).storedBy c = s.storedBy c := by
  have hnone : (Event.effect c' wr (wr.verb.reply s.mem)).insertion = none := by
    unfold Event.insertion
    split
    · rename_i hev
      cases hev
      cases h
    · rfl
  rw [storedBy, insertions, effect_trace, List.filterMap_cons, hnone]
  rfl

theorem Elsewhere.storedBy (h : Elsewhere s s' c) : s'.storedBy c = s.storedBy c := by
  obtain ⟨-, e, htrace, -, heffect⟩ := h
  rw [State.storedBy, State.insertions, htrace, List.filterMap_cons]
  cases hins : e.insertion with
  | none => rfl
  | some x =>
    unfold Event.insertion at hins
    split at hins
    · cases hins
      refine List.filterMap_cons_none (if_neg ?_)
      rintro rfl
      exact heffect _ _ rfl
    · cases hins

theorem State.storedBy_effect_of_inserts {cart : NewOrderCart}
    {x : Version (Row (.newOrder srv n : Key).table)}
    (htrx : wr.owner.trx = .newOrder cart) (hv : wr.verb = .writeHead (.newOrder srv n) x) :
    (s.effect c i wr answer).storedBy c = n :: s.storedBy c := by
  obtain ⟨⟨t, trx⟩, verb, sig⟩ := wr
  obtain rfl : trx = .newOrder cart := htrx
  cases hv
  simp [storedBy, insertions, Event.insertion]

/-! ## Steps -/

inductive StoreStep (cl cl' : Client) (o : Owner) (l : CpuLabel) : Prop
  | keep (stores : cl'.phase.stores = cl.phase.stores) (install : cl'.phase.isInstall = false)
      (label : ∀ cart, o.trx = .newOrder cart → l ≠ .finish .COMMITTED)
  | insert (before : cl.phase.stores = false) (install : cl'.phase.isInstall = true)
      (label : l ≠ .finish .COMMITTED)
  | commit (cart : NewOrderCart) (before : cl.phase.stores = true)
      (stores : cl'.phase.stores = false) (install : cl'.phase.isInstall = false)
      (trx : o.trx = .newOrder cart) (label : l = .finish .COMMITTED)

theorem Phase.stores_of_isInstall {ph : Phase} (h : ph.isInstall = true) : ph.stores = true := by
  cases ph with
  | newOrder cart pc =>
    cases pc with
    | install => rfl
    | _ => cases h
  | _ => cases h

theorem Phase.stores_of_status {ph : Phase} {st : Status} (h : ph.status = st)
    (hst : st ≠ .committing) : ph.stores = false ∧ ph.isInstall = false := by
  have hstores : ph.stores = false := by
    subst h
    unfold stores
    split <;> first | rfl | exact absurd rfl hst
  refine ⟨hstores, ?_⟩
  by_contra hne
  rw [stores_of_isInstall (by simpa using hne)] at hstores
  cases hstores

theorem Stretch.storeStep {trx : Trx} (h : Stretch cfg vec c cl trx cl' l) :
    StoreStep cl cl' ⟨cl'.t, trx⟩ l := by
  -- steps outside commits
  have hkeep : ∀ {cl' : Client} {st st' : Status} {l : CpuLabel}, cl.phase.status = st →
      cl'.phase.status = st' → st ≠ .committing → st' ≠ .committing →
      (∀ cart, trx = .newOrder cart → l ≠ .finish .COMMITTED) →
      StoreStep cl cl' ⟨cl'.t, trx⟩ l := by
    intro cl' st st' l hcl hcl' hst hst' hl
    exact .keep ((Phase.stores_of_status hcl' hst').1.trans (Phase.stores_of_status hcl hst).1.symm)
      (Phase.stores_of_status hcl' hst').2 hl
  cases h with
  | call _ hidle hp =>
    rcases hp with rfl | rfl <;> exact .keep (congrArg Phase.stores hidle).symm rfl (by simp)
  | start _ h | read h | snapshot _ _ _ h | giveUp h =>
    exact hkeep h.phase.1 h.phase.2.1 nofun nofun (by simp)
  | lock h => exact hkeep h.phase.1 h.phase.2.1 nofun nofun (by simp)
  | stop hst _ h hout => exact hkeep hst h.status nofun nofun (by simpa using hout)
  | abort hst _ h => exact hkeep hst h.status nofun nofun (by simp)
  | log _ h =>
    have hbefore := (Phase.stores_of_status h.phase.1 nofun).1
    cases h <;> exact .keep hbefore.symm rfl (by simp)
  | @commit _ p _ _ _ hbase h =>
    have hbefore : cl.phase.stores = false := by
      rcases hbase with ⟨hph, -⟩ | ⟨hwon, -⟩
      · rw [hph]
        cases h <;> rfl
      · exact (Phase.stores_of_status hwon.phase.1 nofun).1
    cases h with
    | append | payment | delivery => exact .keep hbefore.symm rfl (by simp)
    | newOrder => exact .insert hbefore rfl (by simp)
  | insert hph => exact .insert (by rw [hph]; rfl) rfl (by simp)
  | register h | publish h =>
    cases h <;> exact .keep (by simp only [Client.post, ‹cl.phase = _›]; rfl) rfl (by simp)
  | finishNewOrder hph => exact .commit _ (by rw [hph]; rfl) rfl rfl rfl rfl
  | finish h hph =>
    obtain ⟨hstores, hinstall⟩ := Phase.stores_of_status h.status nofun
    rcases hph with ⟨cart, hph, rfl⟩ | ⟨cart, dID, hph, rfl⟩ <;>
      exact .keep (hstores.trans (by rw [hph]; rfl)) hinstall (by simp)

theorem ClientStep.storeStep (h : ClientStep cfg vec c cl cl' o l) : StoreStep cl cl' o l := by
  obtain ⟨n, m, trx, rfl, hstretch⟩ := h.stretch
  cases hstretch.storeStep with
  | keep hst hin hl => exact .keep hst hin hl
  | insert hst hin hl => exact .insert hst hin hl
  | commit cart hst hst' hin ho hl => exact .commit cart hst hst' hin ho hl

/-! ## The slots of the rows -/

theorem Client.insertCnt_le : cl.insertCnt ≤ cl.outstanding.countP (·.verb.onNewOrder) := by
  refine List.countP_mono_left fun wr _ h => ?_
  obtain ⟨-, srv, n, x, hv⟩ := WorkRequest.inserts_iff.1 h
  rw [hv]
  rfl

theorem NewOrderTransaction.eq_of_mem_insertSlots {cart : NewOrderCart} {p : Key × ℕ}
    (hp : p ∈ insertSlots cfg c cl cart) (ht : p.1.table = .newOrder) :
    p = (newOrderKey cfg c cl.nextNewOrderID cart.wID, 0) := by
  simp only [insertSlots, List.mem_append, List.mem_cons, List.not_mem_nil, or_false,
    List.mem_map] at hp
  rcases hp with (rfl | rfl) | ⟨x, -, rfl⟩
  · cases ht
  · rfl
  · cases ht

theorem RowsOK.install_of_inserts (h : RowsOK cfg c cl) (hwr : wr ∈ cl.outstanding)
    (hins : wr.inserts = true) : ∃ cart cts assignedOID x,
      cl.phase = .newOrder cart (.install cts assignedOID) ∧ wr.owner.trx = .newOrder cart ∧
      wr.verb = .writeHead (newOrderKey cfg c cl.nextNewOrderID cart.wID) x := by
  obtain ⟨⟨cart, htrx⟩, srv, n, x, hv⟩ := WorkRequest.inserts_iff.1 hins
  have hrow : wr.verb.onRow = true := by rw [hv]; rfl
  have hex := (h.executes wr hwr hrow).trx
  have hmem := h.verbs _ (Client.mem_rowsPending.2 ⟨wr, hwr, rfl, hrow⟩)
  rw [htrx] at hex
  unfold Client.rowVerbs at hmem
  split at hmem
  · rename_i cart' cts assignedOID hph
    rw [hph] at hex
    cases hex
    obtain ⟨p, hp, hverb⟩ := List.mem_map.1 hmem
    have hkey : p.1 = .newOrder srv n := (Verb.writeHead.inj (hverb.trans hv)).1
    obtain rfl := NewOrderTransaction.eq_of_mem_insertSlots hp (congrArg Key.table hkey)
    exact ⟨cart, cts, assignedOID, _, hph, htrx, hverb.symm⟩
  · rename_i hph
    rw [hph] at hex
    cases hex
  · rename_i hph
    rw [hph] at hex
    cases hex
  · rename_i hph
    rw [hph] at hex
    cases hex
  · cases hmem

theorem RowsOK.insertCnt_eq_zero (h : RowsOK cfg c cl) (hph : cl.phase.isInstall = false) :
    cl.insertCnt = 0 := by
  refine List.countP_eq_zero.2 fun wr hwr hins => ?_
  obtain ⟨cart, cts, assignedOID, x, hinstall, -⟩ := h.install_of_inserts hwr hins
  simp [hinstall, Phase.isInstall] at hph

theorem ClientStep.insertCnt_eq_one (hrows : RowsOK cfg c cl) (hset : Settled cfg cl)
    (hstep : ClientStep cfg vec c cl cl' o l) (hph : cl'.phase.isInstall = true) :
    cl'.insertCnt = 1 := by
  have hrows' := hrows.step hstep hset
  refine Nat.le_antisymm (Client.insertCnt_le.trans hrows'.single) (List.countP_pos_iff.2 ?_)
  cases hcl : cl'.phase with
  | newOrder cart pc =>
    cases pc with
    | install cts assignedOID =>
      have hmem : cl'.writeVerb (newOrderKey cfg c cl'.nextNewOrderID cart.wID, 0) ∈
          cl'.rowsPending := by
        rw [hstep.rowsPending (hrows.settled hset), Client.rowVerbs, hcl]
        refine List.mem_map_of_mem ?_
        simp [NewOrderTransaction.insertSlots]
      obtain ⟨wr, hwr, hv, hrow⟩ := Client.mem_rowsPending.1 hmem
      have htrx := (hrows'.executes wr hwr (by rw [hv]; exact hrow)).trx
      rw [hcl] at htrx
      exact ⟨wr, hwr, WorkRequest.inserts_iff.2
        ⟨⟨cart, (Option.some.inj htrx).symm⟩, _, _, _, hv⟩⟩
    | _ => simp [hcl, Phase.isInstall] at hph
  | _ => simp [hcl, Phase.isInstall] at hph

/-- The NewOrder rows of client `c`: how many there are, and where. -/
structure StoredOK (cfg : Config) (s : State) (c : ClientID) : Prop where
  count : (s.storedBy c).length + (s.clients c).insertCnt =
    (committedCarts c s.trace).length + if (s.clients c).phase.stores then 1 else 0
  slots : ∀ newer older n, s.storedBy c = newer ++ n :: older →
    n = c.toNat * cfg.ORDER_BUFFER_PER_CLIENT + older.length % cfg.ORDER_BUFFER_PER_CLIENT

theorem StoredOK.setClient (h : StoredOK cfg s c) (hrows : RowsOK cfg c (s.clients c))
    (hset : Settled cfg (s.clients c)) (hstep : ClientStep cfg vec c (s.clients c) cl o l) :
    StoredOK cfg (s.setClient c cl o l) c := by
  have hstored : (s.setClient c cl o l).storedBy c = s.storedBy c := rfl
  have hcount := h.count
  refine ⟨?_, by rw [hstored]; exact h.slots⟩
  rw [hstored, State.setClient_trace, State.setClient_clients_self, committedCarts_cons]
  -- nothing is outstanding when the poll loop is over
  have hzero : (s.clients c).insertCnt = 0 := by
    refine List.countP_eq_zero.2 fun wr hwr hins => ?_
    obtain ⟨-, srv, n, x, hv⟩ := WorkRequest.inserts_iff.1 hins
    have hmem : wr.verb ∈ (s.clients c).rowsPending :=
      Client.mem_rowsPending.2 ⟨wr, hwr, rfl, by rw [hv]; rfl⟩
    rw [hrows.settled hset] at hmem
    cases hmem
  rw [hzero] at hcount
  cases hstep.storeStep with
  | keep hst hin hl =>
    rw [(hrows.step hstep hset).insertCnt_eq_zero hin, Event.committedCart_eq_none hl, hst]
    exact hcount
  | insert hst hin hl =>
    rw [hstep.insertCnt_eq_one hrows hset hin, Event.committedCart_eq_none fun _ _ => hl,
      if_pos (Phase.stores_of_isInstall hin)]
    rw [if_neg (by simp [hst])] at hcount
    simpa using hcount
  | commit cart hst hst' hin ho hl =>
    obtain ⟨t, trx⟩ := o
    obtain rfl : trx = .newOrder cart := ho
    subst hl
    rw [(hrows.step hstep hset).insertCnt_eq_zero hin, if_neg (by simp [hst'])]
    rw [if_pos hst] at hcount
    simpa [Event.committedCart, Nat.add_comm] using hcount

theorem StoredOK.effect (h : StoredOK cfg s c) (hrows : RowsOK cfg c (s.clients c))
    (hcnt : RowCounters cfg (committedCarts c s.trace) (s.clients c))
    (ho : (s.clients c).Oldest cfg i wr) :
    StoredOK cfg (s.effect c i wr answer) c := by
  have hwr : wr ∈ (s.clients c).outstanding := List.mem_of_getElem? ho.getElem
  have hcarts : committedCarts c (s.effect c i wr answer).trace = committedCarts c s.trace := rfl
  have hphase : ((s.effect c i wr answer).clients c).phase = (s.clients c).phase :=
    State.effect_phase
  have herase : ((s.effect c i wr answer).clients c).insertCnt + (if wr.inserts then 1 else 0) =
      (s.clients c).insertCnt := by
    rw [State.effect_clients_self]
    exact Fifo.countP_eraseIdx _ ho.getElem
  have hcount := h.count
  by_cases hins : wr.inserts = true
  · obtain ⟨cart, cts, assignedOID, x, hph, htrx, hv⟩ := hrows.install_of_inserts hwr hins
    have hone : (s.clients c).insertCnt ≤ 1 := Client.insertCnt_le.trans hrows.single
    rw [if_pos hins] at herase
    have hnum : (s.storedBy c).length = (committedCarts c s.trace).length := by
      rw [hph] at hcount
      simp only [Phase.stores, if_true] at hcount
      omega
    have hstored : (s.effect c i wr answer).storedBy c =
        (c.toNat * cfg.ORDER_BUFFER_PER_CLIENT + (s.clients c).nextNewOrderID) :: s.storedBy c :=
      State.storedBy_effect_of_inserts htrx hv
    refine ⟨?_, fun newer older n hsplit => ?_⟩
    · rw [hstored, hcarts, hphase, List.length_cons]
      omega
    · rw [hstored] at hsplit
      rcases List.append_eq_cons_iff.1 hsplit.symm with ⟨-, hcons⟩ | ⟨newer', -, hold⟩
      · obtain ⟨rfl, rfl⟩ := List.cons.inj hcons
        rw [hnum, hcnt.nextNewOrderID]
      · exact h.slots newer' older n hold
  · have hins' : wr.inserts = false := by simpa using hins
    have hstored : (s.effect c i wr answer).storedBy c = s.storedBy c :=
      State.storedBy_effect_of_not_inserts hins'
    refine ⟨?_, by rw [hstored]; exact h.slots⟩
    rw [if_neg hins] at herase
    rw [hstored, hcarts, hphase, ← hcount]
    omega

/-- **The NewOrder rows of a client are in its ring, in the order in which it inserted them.** -/
theorem stored_of_reachable (h : Reachable cfg s) (hwrap : NoWrap cfg s) (c : ClientID) :
    StoredOK cfg s c := by
  induction h with
  | start hs =>
    have hcl := hs.clients c
    have hnil : ∀ s : State, s.trace = [] → s.storedBy c = [] := by
      intro s hs
      rw [State.storedBy, State.insertions, hs]
      rfl
    refine ⟨?_, by simp [hnil _ hs.trace]⟩
    rw [hnil _ hs.trace, hs.trace, hcl.phase, Client.insertCnt, hcl.outstanding]
    rfl
  | next hs _ ha ih =>
    have hwrap' := hwrap.of_step ha
    have hinv := inv_of_reachable hs hwrap'
    have hrows := rowsOK_of_reachable hs hwrap' c
    rcases step_client_cases ha c with ⟨vec, cl, o, l, -, hstep, rfl⟩ | ⟨i, wr, answer, ho, rfl⟩ |
      helse
    · exact (ih hwrap').setClient hrows (hstep.settled (hinv.clients c)) hstep
    · exact (ih hwrap').effect hrows (rowCounters_of_reachable hs c) ho
    · obtain ⟨e, htrace, hcpu, -⟩ := helse.event
      refine ⟨?_, ?_⟩ <;> rw [helse.storedBy]
      · rw [helse.client, htrace, committedCarts_cons, Event.committedCart_of_ne hcpu]
        exact (ih hwrap').count
      · exact (ih hwrap').slots

/-- As long as the ring has room, the rows of a client have numbers of their own. -/
theorem StoredOK.exists_lt (h : StoredOK cfg s c)
    (hring : (s.storedBy c).length ≤ cfg.ORDER_BUFFER_PER_CLIENT) (hn : n ∈ s.storedBy c) :
    ∃ j < (s.storedBy c).length, n = c.toNat * cfg.ORDER_BUFFER_PER_CLIENT + j := by
  obtain ⟨newer, older, hsplit⟩ := List.append_of_mem hn
  have hlt : older.length < (s.storedBy c).length := by
    rw [hsplit, List.length_append, List.length_cons]
    omega
  refine ⟨older.length, hlt, ?_⟩
  rw [h.slots newer older n hsplit, Nat.mod_eq_of_lt (Nat.lt_of_lt_of_le hlt hring)]

theorem State.mem_storedBy (h : (c, srv, n) ∈ s.insertions) : n ∈ s.storedBy c :=
  List.mem_filterMap.2 ⟨_, h, if_pos rfl⟩

theorem storedBy_length_le {a : Action} (ha : step cfg s a = some s') (c : ClientID) :
    (s.storedBy c).length ≤ (s'.storedBy c).length := by
  obtain ⟨e, he⟩ := trace_of_step ha
  have hsub : s.trace.Sublist s'.trace := by simp [he]
  exact ((hsub.filterMap _).filterMap _).length_le

theorem slot_unique {B a b i j : ℕ} (hi : i < B) (hj : j < B) (h : a * B + i = b * B + j) :
    a = b ∧ i = j := by
  have hB : 0 < B := Nat.zero_lt_of_lt hi
  obtain ⟨hdiv, hmod⟩ := (Nat.div_mod_unique hB (a := a * B + i) (d := a) (c := i)).2
    ⟨by rw [Nat.mul_comm, Nat.add_comm], hi⟩
  obtain ⟨hdiv', hmod'⟩ := (Nat.div_mod_unique hB (a := b * B + j) (d := b) (c := j)).2
    ⟨by rw [Nat.mul_comm, Nat.add_comm], hj⟩
  rw [h] at hdiv hmod
  exact ⟨hdiv.symm.trans hdiv', hmod.symm.trans hmod'⟩

/-- A row that is inserted is in a fresh slot, so nobody claims it. -/
theorem insertsUnclaimed_of_step {a : Action} (hs : ReachableBy cfg InsertsUnclaimed s)
    (ha : step cfg s a = some s') (hwrap : NoWrap cfg s')
    (hring : ∀ c, (s'.storedBy c).length ≤ cfg.ORDER_BUFFER_PER_CLIENT) :
    InsertsUnclaimed s a := by
  cases a with
  | nic c i answer =>
    have hwrap' := hwrap.of_step ha
    have hstored := stored_of_reachable (hs.reachable.next trivial ha) hwrap c
    have hring' := fun c => (storedBy_length_le ha c).trans (hring c)
    obtain ⟨wr, ho, rfl⟩ := nic_eq_some ha
    intro wr' hwr' cart htrx srv n x hv
    obtain rfl := Option.some.inj (ho.getElem.symm.trans hwr')
    have hnew : (s.effect c i wr answer).storedBy c = n :: s.storedBy c :=
      State.storedBy_effect_of_inserts htrx hv
    have hlt : (s.storedBy c).length < cfg.ORDER_BUFFER_PER_CLIENT := by
      have hle := hring c
      rwa [hnew] at hle
    have hn := hstored.slots [] _ n hnew
    rw [Nat.mod_eq_of_lt hlt] at hn
    by_contra hclaim
    obtain ⟨c', hc'⟩ := (claims_of_reachableBy hs hwrap').inserted srv n (.inr hclaim)
    obtain ⟨j, hj, hn'⟩ := (stored_of_reachable hs.reachable hwrap' c').exists_lt (hring' c')
      (State.mem_storedBy hc')
    obtain ⟨hcc, rfl⟩ := slot_unique (Nat.lt_of_lt_of_le hj (hring' c')) hlt (hn'.symm.trans hn)
    rw [UInt16.toNat_inj.1 hcc] at hj
    exact Nat.lt_irrefl _ hj
  | _ => trivial

/-- No ring slot is reused, so nothing is inserted over a row that a Delivery has claimed. -/
theorem reachableBy_insertsUnclaimed (h : Reachable cfg s) (hwrap : NoWrap cfg s)
    (hring : ∀ c, (s.storedBy c).length ≤ cfg.ORDER_BUFFER_PER_CLIENT) :
    ReachableBy cfg InsertsUnclaimed s := by
  induction h with
  | start hs => exact .start hs
  | next hs _ ha ih =>
    have hby := ih (hwrap.of_step ha) fun c => (storedBy_length_le ha c).trans (hring c)
    exact .next hby (insertsUnclaimed_of_step hby ha hwrap hring) ha

/-! ## At most once -/

/-- Iteration `o` of client `c` commits the order whose NewOrder row is row `n` of server `srv`: it
has tried to lock the row, and it has committed, or it holds all its locks and will. -/
def Delivers (s : State) (c : ClientID) (o : Owner) (srv n : ℕ) : Prop :=
  Committed s c (s.clients c) o ∧ HasTried s c o (.newOrder srv n)

/-- **At most one Delivery iteration commits an order**, whatever the index answers, in every
reachable state in which no commit timestamp has wrapped and no client has inserted more NewOrder
rows than its ring has slots. -/
theorem delivers_at_most_once (h : Reachable cfg s) (hwrap : NoWrap cfg s)
    (hring : ∀ c, (s.storedBy c).length ≤ cfg.ORDER_BUFFER_PER_CLIENT)
    (hd : Delivers s c o srv n) (hd' : Delivers s c' o' srv n) : c = c' ∧ o = o' := by
  have hclaims := claims_of_reachableBy (reachableBy_insertsUnclaimed h hwrap hring) hwrap
  have hclaim := hclaims.committed c o srv n hd.1 hd.2
  have hclaim' := hclaims.committed c' o' srv n hd'.1 hd'.2
  rw [hclaim] at hclaim'
  exact Prod.mk.inj (Option.some.inj hclaim')

/-- The event is the CAS on NewOrder row 0 of server 0, or the commit, of the first iteration of
client 1. -/
def Event.delivers : Event → Bool × Bool
  | .effect 1 ⟨⟨1, .delivery cart 0⟩, .compareAndSwap (.newOrder 0 0) _ _ _, _⟩ _ =>
    (cart = plainDelivery, false)
  | .cpu 1 ⟨1, .delivery cart 0⟩ (.finish .COMMITTED) => (false, cart = plainDelivery)
  | _ => (false, false)

set_option maxRecDepth 100000 in
theorem delivers_at_most_once_plain : ∃ s, Reachable (.shipped 2) s ∧
    Delivers s 1 ⟨1, .delivery plainDelivery 0⟩ 0 0 ∧
    ∀ c o, Delivers s c o 0 0 → 1 = c ∧ ⟨1, .delivery plainDelivery 0⟩ = o := by
  obtain ⟨s, h, hwrap, hp⟩ := exists_reachable (init_plain (.shipped 2))
    (newOrderAlone 0 ++ deliveryAlone 1 .firstOrder)
    (fun s => s.insertions.length ≤ 1000 && s.trace.any (·.delivers.1) &&
      s.trace.any (·.delivers.2)) (by decide +kernel) (by decide +kernel)
  simp only [Bool.and_eq_true, decide_eq_true_eq, List.any_eq_true] at hp
  obtain ⟨⟨hlen, e, he, hswap⟩, e', he', hcommit⟩ := hp
  have hring : ∀ c, (s.storedBy c).length ≤ (Config.shipped 2).ORDER_BUFFER_PER_CLIENT :=
    fun c => (List.length_filterMap_le _ _).trans hlen
  have hd : Delivers s 1 ⟨1, .delivery plainDelivery 0⟩ 0 0 := by
    refine ⟨.inl ?_, ?_⟩
    · unfold Event.delivers at hcommit
      split at hcommit
      · cases hcommit
      · rw [of_decide_eq_true hcommit] at he'
        exact he'
      · cases hcommit
    · unfold Event.delivers at hswap
      split at hswap
      · rw [of_decide_eq_true hswap] at he
        exact ⟨_, _, _, _, _, he⟩
      · cases hswap
      · cases hswap
  exact ⟨s, h, hd, fun c o hd' => delivers_at_most_once h hwrap hring hd hd'⟩

end RdmaSnapshot
