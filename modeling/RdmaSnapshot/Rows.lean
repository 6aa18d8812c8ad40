import RdmaSnapshot.Acceptance
import RdmaSnapshot.Publication

/-!
# The rows of orders

Order, NewOrder and OrderLine rows have no history. A NewOrder inserts them; a Delivery iteration
locks the rows the index names, and then releases them or overwrites them. At any time the WRITEs
and CASes on such rows that a client has outstanding are determined by the phase it is in and by
its buffers, and none is left when its poll loop is over.
-/

namespace RdmaSnapshot

open DBExecutor DeliveryTransaction

variable {cfg : Config} {s s' : State} {c c' : ClientID} {cl cl' base : Client} {o : Owner}
  {l : CpuLabel} {k : Key} {cts : UInt32} {i g : ℕ} {wr : WorkRequest} {answer : IndexAnswer}
  {vec : ClientID → UInt32} {trx : Trx} {posts : List Post} {v : Verb}

def Key.isRow : Key → Bool
  | .order _ _ | .newOrder _ _ | .orderLine _ _ => true
  | _ => false

def Verb.onRow : Verb → Bool
  | .compareAndSwap k _ _ _ | .writeTimestamp k _ | .writePointerList k _
  | .writeOlderVersion k _ _ | .writeHead k _ => k.isRow
  | _ => false

def Verb.onNewOrder : Verb → Bool
  | .compareAndSwap k _ _ _ | .writeTimestamp k _ | .writePointerList k _
  | .writeOlderVersion k _ _ | .writeHead k _ => k.table = .newOrder
  | _ => false

theorem Verb.onRow_of_onNewOrder (h : v.onNewOrder = true) : v.onRow = true := by
  have hrow : ∀ k : Key, k.table = .newOrder → k.isRow = true := by
    intro k hk
    cases k <;> first | rfl | cases hk
  cases v with
  | compareAndSwap | writeTimestamp | writePointerList | writeOlderVersion | writeHead =>
    exact hrow _ (of_decide_eq_true h)
  | _ => cases h

theorem Verb.onRow_of_mutates (h : v.mutates k = true) : v.onRow = k.isRow := by
  cases v with
  | compareAndSwap | writeTimestamp | writePointerList | writeOlderVersion | writeHead =>
    obtain rfl := of_decide_eq_true h
    rfl
  | _ => cases h

theorem Verb.onNewOrder_of_mutates (h : v.mutates k = true) (hk : k.table = .newOrder) :
    v.onNewOrder = true := by
  cases v with
  | compareAndSwap | writeTimestamp | writePointerList | writeOlderVersion | writeHead =>
    obtain rfl := of_decide_eq_true h
    exact decide_eq_true hk
  | _ => cases h

theorem Verb.onRow_of_kind (h : v.kind = .read) : v.onRow = false := by
  cases v <;> first | rfl | cases h

def Client.rowsPending (cl : Client) : List Verb := (cl.outstanding.map (·.verb)).filter Verb.onRow

theorem Client.mem_rowsPending : v ∈ cl.rowsPending ↔
    ∃ wr ∈ cl.outstanding, wr.verb = v ∧ v.onRow = true := by
  simp only [rowsPending, List.mem_filter, List.mem_map]
  constructor
  · rintro ⟨⟨wr, hwr, rfl⟩, hrow⟩
    exact ⟨wr, hwr, rfl, hrow⟩
  · rintro ⟨wr, hwr, rfl, hrow⟩
    exact ⟨⟨wr, hwr, rfl⟩, hrow⟩

/-- The rows of an order for a Delivery iteration, with a given NewOrder row, and the buffer
entries they are kept in. -/
def DeliveryTransaction.slots (cfg : Config) (cl : Client) (cart : DeliveryCart)
    (newOrderRow : Key) : List (Key × ℕ) :=
  [(orderKey cfg (oldest cfg cl cart).clientWhoOrdered (oldest cfg cl cart).orderRegionOffset
      cart.wID, 0), (newOrderRow, 0)] ++
  (List.range (oldest cfg cl cart).numOfOrderlines.toNat).map fun olNumber =>
    (orderLineKey cfg (oldest cfg cl cart).clientWhoOrdered
      ((oldest cfg cl cart).orderLineRegionOffset + olNumber) cart.wID, olNumber)

def DeliveryTransaction.newOrderRow (cfg : Config) (cl : Client) (cart : DeliveryCart) : Key :=
  newOrderKey cfg (oldest cfg cl cart).clientWhoOrdered
    (oldest cfg cl cart).newOrderRegionOffset cart.wID

def DeliveryTransaction.deletedRow (cfg : Config) (c : ClientID) (cart : DeliveryCart) : Key :=
  newOrderKey cfg c getNewOrderRID cart.wID

def DeliveryTransaction.rowSlots (cfg : Config) (cl : Client) (cart : DeliveryCart) :
    List (Key × ℕ) :=
  slots cfg cl cart (newOrderRow cfg cl cart)

def NewOrderTransaction.insertSlots (cfg : Config) (c : ClientID) (cl : Client)
    (cart : NewOrderCart) : List (Key × ℕ) :=
  [(orderKey cfg c cl.nextOrderID cart.wID, 0),
    (newOrderKey cfg c cl.nextNewOrderID cart.wID, 0)] ++
  cart.items.zipIdx.map fun x =>
    (orderLineKey cfg c (cl.nextOrderLineID + x.2) cart.wID, x.2)

def Client.writeVerb (cl : Client) (p : Key × ℕ) : Verb := .writeHead p.1 (cl.copy p.1 p.2)

def Client.rowVerbs (cfg : Config) (c : ClientID) (cl : Client) : List Verb :=
  match cl.phase with
  | .newOrder cart (.install _ _) =>
    (NewOrderTransaction.insertSlots cfg c cl cart).map cl.writeVerb
  | .delivery cart _ (.locks _ cts) =>
    (rowSlots cfg cl cart).map (cl.lockVerb c cts)
  | .delivery cart _ .reverts =>
    ((rowSlots cfg cl cart).filter fun p =>
      cl.lockResult p.1 p.2 = (cl.copy p.1 p.2).writeTimestamp).map cl.revertVerb
  | .delivery cart _ .install =>
    (slots cfg cl cart (deletedRow cfg c cart)).map
      cl.writeVerb
  | _ => []

theorem Client.of_mem_rowVerbs (h : v ∈ cl.rowVerbs cfg c) :
    (∃ p, v = cl.writeVerb p) ∨ ∃ cart dID, ∃ p ∈ rowSlots cfg cl cart,
      (∃ cID cts, cl.phase = .delivery cart dID (.locks cID cts) ∧ v = cl.lockVerb c cts p) ∨
      (cl.phase = .delivery cart dID .reverts ∧ v = cl.revertVerb p ∧
        cl.lockResult p.1 p.2 = (cl.copy p.1 p.2).writeTimestamp) := by
  unfold rowVerbs at h
  split at h
  · obtain ⟨p, -, rfl⟩ := List.mem_map.1 h
    exact .inl ⟨p, rfl⟩
  · rename_i cart dID cID cts hph
    obtain ⟨p, hp, rfl⟩ := List.mem_map.1 h
    exact .inr ⟨cart, dID, p, hp, .inl ⟨cID, cts, hph, rfl⟩⟩
  · rename_i cart dID hph
    obtain ⟨p, hp, rfl⟩ := List.mem_map.1 h
    obtain ⟨hp, hlocked⟩ := List.mem_filter.1 hp
    exact .inr ⟨cart, dID, p, hp, .inr ⟨hph, rfl, of_decide_eq_true hlocked⟩⟩
  · obtain ⟨p, -, rfl⟩ := List.mem_map.1 h
    exact .inl ⟨p, rfl⟩
  · cases h

/-! ## Posting -/

theorem rowsPending_post : (base.post trx posts).rowsPending =
    base.rowsPending ++ (posts.map (·.verb)).filter Verb.onRow := by
  simp [Client.rowsPending, Client.post, List.map_append, List.filter_append, List.map_map,
    Function.comp_def]

theorem rowsPending_postLog {servers : List ℕ} :
    (base.postLog trx servers).rowsPending = base.rowsPending := by
  simp [Client.rowsPending, Client.postLog, List.map_append, List.filter_append, List.map_map,
    Function.comp_def, List.filter_eq_nil_iff, Verb.onRow]

theorem filter_onRow_eq_nil (h : ∀ p ∈ posts, p.verb.onRow = false) :
    (posts.map (·.verb)).filter Verb.onRow = [] := by
  rw [List.filter_eq_nil_iff]
  intro v hv
  obtain ⟨p, hp, rfl⟩ := List.mem_map.1 hv
  simp [h p hp]

theorem rowsPending_post_of_none (h : ∀ p ∈ posts, p.verb.onRow = false) :
    (base.post trx posts).rowsPending = base.rowsPending := by
  rw [rowsPending_post, filter_onRow_eq_nil h, List.append_nil]

theorem Client.rowVerbs_of_status (h : cl.phase.status = .idle ∨ cl.phase.status = .reading) :
    cl.rowVerbs cfg c = [] := by
  unfold rowVerbs
  split <;> first | rfl | simp [*, Phase.status] at h

namespace NewOrderTransaction

variable {cart : NewOrderCart} {assignedOID : UInt32}

theorem onRow_appendPosts : ∀ p ∈ appendPosts cfg cl cart, p.verb.onRow = false := by
  intro p hp
  rcases List.mem_append.1 hp with hp | hp
  · split at hp
    · cases hp
    · rcases List.mem_pair.1 hp with rfl | rfl <;> rfl
  · obtain ⟨x, -, hp⟩ := List.mem_flatMap.1 hp
    rcases List.mem_pair.1 hp with rfl | rfl <;> rfl

/-- The rows are inserted with the versions that were built in the buffers. -/
theorem installStep_rowsPending : (installStep cfg c cl cart cts assignedOID).rowsPending =
    cl.rowsPending ++ (installStep cfg c cl cart cts assignedOID).rowVerbs cfg c := by
  have hlines : ((cart.items.zipIdx.flatMap (installLine cfg c cl cart cts assignedOID)).map
      (·.verb)).filter Verb.onRow = (cart.items.zipIdx.map fun x =>
        (orderLineKey cfg c (cl.nextOrderLineID + x.2) cart.wID, x.2)).map
        (installStep cfg c cl cart cts assignedOID).writeVerb := by
    rw [List.map_flatMap, List.filter_flatMap, List.map_map, List.map_eq_flatMap]
    refine List.flatMap_congr fun x hx => ?_
    have hcopy : (installStep cfg c cl cart cts assignedOID).copy
        (orderLineKey cfg c (cl.nextOrderLineID + x.2) cart.wID) x.2 =
        orderLineV c cl cart cts assignedOID x.1 x.2 := by
      change installedHeads cfg c cl cart cts assignedOID .orderLine x.2 = _
      simp only [installedHeads, List.mem_zipIdx_iff_getElem?.1 hx]
    simp only [Function.comp_apply, Client.writeVerb, hcopy]
    rfl
  rw [installStep, rowsPending_post, installPosts_eq, List.map_append, List.filter_append, hlines]
  rfl

end NewOrderTransaction

namespace DeliveryTransaction

variable {cart : DeliveryCart} {dID : UInt8} {cID : UInt32}

theorem isRow_of_mem_slots {row : Key} (hrow : row.isRow = true) {p : Key × ℕ}
    (hp : p ∈ slots cfg cl cart row) : p.1.isRow = true := by
  simp only [slots, List.mem_append, List.mem_cons, List.not_mem_nil, or_false, List.mem_map] at hp
  rcases hp with (rfl | rfl) | ⟨n, -, rfl⟩
  · rfl
  · exact hrow
  · rfl

theorem lockStep_rowsPending (h : cl.rowsPending = []) :
    (lockStep cfg c cl cart dID cID).1.rowsPending =
      (lockStep cfg c cl cart dID cID).1.rowVerbs cfg c := by
  have hverbs : (rowLocks cfg c cl cart (cl.newCommitTimestamp cfg c)).map (·.verb) =
      (rowSlots cfg cl cart).map
        ((lockStep cfg c cl cart dID cID).1.lockVerb c (cl.newCommitTimestamp cfg c)) := by
    simp only [rowLocks, rowSlots, slots, List.map_append, List.map_map]
    rfl
  have hbase : ({ cl.advanceEpoch with
      phase := .delivery cart dID (.locks cID (cl.newCommitTimestamp cfg c)) } :
        Client).rowsPending = [] := h
  rw [lockStep, rowsPending_post, lockPosts, List.map_append, List.filter_append, hverbs, hbase,
    List.nil_append, List.filter_eq_self.2]
  · exact List.append_nil _
  · intro v hv
    obtain ⟨p, hp, rfl⟩ := List.mem_map.1 hv
    exact isRow_of_mem_slots rfl hp

theorem revert_rowsPending (h : cl.rowsPending = []) :
    (({ cl with phase := .delivery cart dID .reverts } : Client).post (.delivery cart dID)
      (revertPosts cfg cl cart)).rowsPending =
    (({ cl with phase := .delivery cart dID .reverts } : Client).post (.delivery cart dID)
      (revertPosts cfg cl cart)).rowVerbs cfg c := by
  have hverbs : (rowReverts cfg cl cart).map (·.verb) =
      ((rowSlots cfg cl cart).filter fun p =>
        ((buffers cl).lockRegion p.1.table p.2 =
          ((buffers cl).head p.1.table p.2).writeTimestamp)).map fun p =>
        .writeTimestamp p.1 ((buffers cl).head p.1.table p.2).writeTimestamp := by
    have hlines : (lockedOrderLines cfg cl cart) =
        (List.range (oldest cfg cl cart).numOfOrderlines.toNat).filter fun n =>
          (buffers cl).lockRegion .orderLine n =
            ((buffers cl).head .orderLine n).writeTimestamp := by
      refine List.filter_congr fun n _ => ?_
      exact Timestamp.isEqual_eq_decide _ _
    simp only [rowReverts, rowSlots, slots, orderLocked, newOrderLocked,
      Timestamp.isEqual_eq_decide, List.filter_append, List.filter_cons, List.filter_nil,
      List.filter_map, List.map_append, List.map_map, hlines]
    congr 1
    dsimp only [newOrderRow, orderKey, newOrderKey, orderV, newOrderV, Key.table]
    by_cases horder : (buffers cl).lockRegion .order 0 =
        ((buffers cl).head .order 0).writeTimestamp <;>
      by_cases hnew : (buffers cl).lockRegion .newOrder 0 =
        ((buffers cl).head .newOrder 0).writeTimestamp <;>
      simp [horder, hnew, revertOrderLock, revertNewOrderLock, orderKey, newOrderKey]
  have hbase : ({ cl with phase := .delivery cart dID .reverts } : Client).rowsPending = [] := h
  rw [rowsPending_post, revertPosts, List.map_append, List.filter_append, hverbs, hbase,
    List.nil_append, List.filter_eq_self.2]
  · split
    · exact List.append_nil _
    · exact List.append_nil _
  · intro v hv
    obtain ⟨p, hp, rfl⟩ := List.mem_map.1 hv
    exact isRow_of_mem_slots rfl (List.mem_filter.1 hp).1

theorem installStep_rowsPending (h : cl.rowsPending = []) :
    (installStep cfg c cl cart dID cts).1.rowsPending =
      (installStep cfg c cl cart dID cts).1.rowVerbs cfg c := by
  have hverbs : (rowPosts cfg c cl cart cts).map (·.verb) =
      (slots cfg cl cart (deletedRow cfg c cart)).map
        (installStep cfg c cl cart dID cts).1.writeVerb := by
    simp only [rowPosts, slots, List.map_append, List.map_map]
    congr 1
    refine List.map_congr_left fun n hn => ?_
    have hcopy : (installStep cfg c cl cart dID cts).1.copy
        (orderLineKey cfg (oldest cfg cl cart).clientWhoOrdered
          ((oldest cfg cl cart).orderLineRegionOffset + n) cart.wID) n =
        newOrderLineV c cl cart cts n := by
      change installedHeads cfg c cl cart cts .orderLine n = _
      simp only [installedHeads, if_pos (List.mem_range.1 hn)]
    simp only [Function.comp_apply, Client.writeVerb, hcopy]
    rfl
  have hbase : ({ cl.setLocal .delivery
      { buffers cl with
        head := installedHeads cfg c cl cart cts
        pointerList := pushedLists cfg cl } with
      phase := .delivery cart dID .install } : Client).rowsPending = [] := h
  rw [installStep, rowsPending_post, installPosts, List.map_append, List.map_append,
    List.filter_append, List.filter_append, hverbs, hbase, List.nil_append]
  have hrows : ((slots cfg cl cart (deletedRow cfg c cart)).map
      (installStep cfg c cl cart dID cts).1.writeVerb).filter Verb.onRow =
      (slots cfg cl cart (deletedRow cfg c cart)).map
        (installStep cfg c cl cart dID cts).1.writeVerb := by
    refine List.filter_eq_self.2 fun v hv => ?_
    obtain ⟨p, hp, rfl⟩ := List.mem_map.1 hv
    exact isRow_of_mem_slots rfl hp
  rw [hrows]
  exact List.append_nil _

end DeliveryTransaction

theorem EntersCommit.rowsPending {p : Phase} (h : EntersCommit cfg c cl p cl')
    (hnil : cl.rowsPending = []) : cl'.rowsPending = cl'.rowVerbs cfg c := by
  cases h with
  | append cart cts =>
    refine (rowsPending_post_of_none fun q hq => ?_).trans hnil
    rcases List.mem_append.1 hq with hq | hq
    · exact NewOrderTransaction.onRow_appendPosts q hq
    · rw [List.mem_singleton.1 hq]
      rfl
  | newOrder cart cts =>
    refine NewOrderTransaction.installStep_rowsPending.trans ?_
    have hposted : ((NewOrderTransaction.appended cfg cl cart).post (.newOrder cart)
        (NewOrderTransaction.appendPosts cfg cl cart)).rowsPending = [] :=
      (rowsPending_post_of_none NewOrderTransaction.onRow_appendPosts).trans hnil
    have hdistrict : (NewOrderTransaction.districtUpdated cfg c cl cart cts).rowsPending = [] := by
      refine (rowsPending_post_of_none fun q hq => ?_).trans hposted
      rw [List.mem_singleton.1 hq]
      rfl
    rw [hdistrict, List.nil_append]
  | payment cart cID cts =>
    refine (rowsPending_post_of_none fun q hq => ?_).trans hnil
    simp only [PaymentTransaction.appendPosts, PaymentTransaction.installPosts, List.mem_append,
      List.mem_cons, List.not_mem_nil, or_false] at hq
    rcases hq with (rfl | rfl | rfl | rfl | rfl | rfl) | (rfl | rfl | rfl | rfl) <;> rfl
  | delivery cart dID cID cts => exact installStep_rowsPending hnil

theorem Locks.rowsPending {p : Phase} (h : Locks cfg c cl trx p posts)
    (hnil : cl.rowsPending = []) :
    (({ cl.advanceEpoch with phase := p } : Client).post trx posts).rowsPending =
      (({ cl.advanceEpoch with phase := p } : Client).post trx posts).rowVerbs cfg c := by
  cases h with
  | newOrder =>
    refine (rowsPending_post_of_none fun q hq => ?_).trans hnil
    rcases List.mem_append.1 hq with hq | hq
    · split at hq
      · cases hq
      · rw [List.mem_singleton.1 hq]
        rfl
    · obtain ⟨x, -, rfl⟩ := List.mem_map.1 hq
      rfl
  | payment =>
    refine (rowsPending_post_of_none fun q hq => ?_).trans hnil
    simp only [PaymentTransaction.lockPosts, List.mem_cons, List.not_mem_nil, or_false] at hq
    rcases hq with rfl | rfl | rfl <;> rfl
  | delivery => exact lockStep_rowsPending hnil

theorem GivesUp.rowsPending {p : Phase} (h : GivesUp cfg cl trx p posts)
    (hnil : cl.rowsPending = []) :
    (({ cl with phase := p } : Client).post trx posts).rowsPending =
      (({ cl with phase := p } : Client).post trx posts).rowVerbs cfg c := by
  cases h with
  | newOrder =>
    refine (rowsPending_post_of_none fun q hq => ?_).trans hnil
    rcases List.mem_append.1 hq with hq | hq
    · split at hq
      · rw [List.mem_singleton.1 hq]
        rfl
      · cases hq
    · obtain ⟨x, -, rfl⟩ := List.mem_map.1 hq
      rfl
  | payment =>
    refine (rowsPending_post_of_none fun q hq => ?_).trans hnil
    simp only [PaymentTransaction.revertPosts, List.mem_append] at hq
    rcases hq with (hq | hq) | hq <;> split at hq <;>
      first
      | cases hq; done
      | rw [List.mem_singleton.1 hq]; rfl
  | delivery => exact revert_rowsPending hnil

theorem Stretch.rowsPending (h : Stretch cfg vec c cl trx cl' l) (hnil : cl.rowsPending = []) :
    cl'.rowsPending = cl'.rowVerbs cfg c := by
  have hfetch : ∀ {v : Verb}, v.fetches = true → v.onRow = false :=
    fun hv => Verb.onRow_of_kind (Verb.of_fetches hv).1
  -- between transactions and while one reads there are no verbs on rows
  have hnone : ∀ {base : Client}, base.rowsPending = [] →
      (base.phase.status = .idle ∨ base.phase.status = .reading) →
      base.rowsPending = base.rowVerbs cfg c := by
    intro base hbase hst
    rw [hbase, Client.rowVerbs_of_status hst]
  cases h with
  | call _ _ hp => rcases hp with rfl | rfl <;> exact hnone hnil (.inl rfl)
  | start _ h =>
    refine hnone ((rowsPending_post_of_none fun q hq => ?_).trans hnil) (.inr h.phase.2.1)
    rcases List.mem_append.1 hq with hq | hq
    · rw [mem_startPosts hq]
      rfl
    · exact hfetch (h.fetches q hq)
  | read h =>
    exact hnone ((rowsPending_post_of_none fun q hq => hfetch (h.fetches q hq)).trans hnil)
      (.inr h.phase.2.1)
  | snapshot _ _ hposts h =>
    refine hnone ((rowsPending_post_of_none fun q hq => ?_).trans hnil) (.inr h.phase.2.1)
    rcases hposts q hq with hv | ⟨id, hv⟩ <;> rw [hv] <;> rfl
  | stop _ _ h | abort _ _ h | finish h => exact hnone hnil (.inl h.status)
  | lock h => exact h.rowsPending hnil
  | giveUp h => exact h.rowsPending hnil
  | log _ h => cases h <;> exact rowsPending_postLog.trans hnil
  | commit _ hbase h =>
    rcases hbase with ⟨-, rfl⟩ | ⟨-, rfl⟩
    · exact h.rowsPending hnil
    · exact h.rowsPending hnil
  | insert =>
    refine NewOrderTransaction.installStep_rowsPending.trans ?_
    rw [hnil]
    rfl
  | register h | publish h =>
    cases h <;>
      refine (rowsPending_post_of_none fun q hq => ?_).trans hnil <;>
      rw [List.mem_singleton.1 hq] <;> rfl
  | finishNewOrder => exact hnone hnil (.inl rfl)

/-- **Posting.** A client that has no verb on a row outstanding posts those of its next phase. -/
theorem ClientStep.rowsPending (h : ClientStep cfg vec c cl cl' o l) (hnil : cl.rowsPending = []) :
    cl'.rowsPending = cl'.rowVerbs cfg c := by
  obtain ⟨n, m, trx, -, hstretch⟩ := h.stretch
  exact hstretch.rowsPending hnil

/-! ### The NewOrder row -/

theorem DeliveryTransaction.countP_slots {cart : DeliveryCart} (row : Key) :
    (slots cfg cl cart row).countP (fun p => p.1.table = .newOrder) ≤ 1 := by
  have hlines : ∀ ns : List ℕ, (ns.map fun olNumber =>
      (orderLineKey cfg (oldest cfg cl cart).clientWhoOrdered
        ((oldest cfg cl cart).orderLineRegionOffset + olNumber) cart.wID, olNumber)).countP
      (fun p => p.1.table = .newOrder) = 0 := by
    intro ns
    rw [List.countP_eq_zero]
    intro p hp
    obtain ⟨n, -, rfl⟩ := List.mem_map.1 hp
    simp [orderLineKey, Key.table]
  rw [slots, List.countP_append, hlines, List.countP_cons, List.countP_cons, List.countP_nil]
  simp only [orderKey, Key.table]
  split <;> simp

theorem NewOrderTransaction.countP_insertSlots {cart : NewOrderCart} :
    (insertSlots cfg c cl cart).countP (fun p => p.1.table = .newOrder) ≤ 1 := by
  have hlines : (cart.items.zipIdx.map fun x =>
      (orderLineKey cfg c (cl.nextOrderLineID + x.2) cart.wID, x.2)).countP
      (fun p => p.1.table = .newOrder) = 0 := by
    rw [List.countP_eq_zero]
    intro p hp
    obtain ⟨x, -, rfl⟩ := List.mem_map.1 hp
    simp [orderLineKey, Key.table]
  rw [insertSlots, List.countP_append, hlines, List.countP_cons, List.countP_cons, List.countP_nil]
  simp [orderKey, newOrderKey, Key.table]

theorem Client.countP_rowVerbs : (cl.rowVerbs cfg c).countP Verb.onNewOrder ≤ 1 := by
  have hmap : ∀ (slots : List (Key × ℕ)) (f : Key × ℕ → Verb),
      (∀ p, (f p).onNewOrder = decide (p.1.table = .newOrder)) →
      (slots.map f).countP Verb.onNewOrder = slots.countP fun p => p.1.table = .newOrder := by
    intro slots f hf
    rw [List.countP_map]
    exact congrArg (List.countP · slots) (funext hf)
  unfold rowVerbs
  split
  · rw [hmap _ _ fun p => rfl]
    exact NewOrderTransaction.countP_insertSlots
  · rw [hmap _ _ fun p => rfl]
    exact countP_slots _
  · rw [hmap _ _ fun p => rfl]
    exact Nat.le_trans (List.Sublist.countP_le List.filter_sublist)
      (countP_slots _)
  · rw [hmap _ _ fun p => rfl]
    exact countP_slots _
  · simp

theorem Client.countP_outstanding :
    cl.outstanding.countP (·.verb.onNewOrder) = cl.rowsPending.countP Verb.onNewOrder := by
  rw [rowsPending, List.countP_filter, List.countP_map]
  refine List.countP_congr fun wr _ => ?_
  simp only [Function.comp_apply, Bool.and_eq_true]
  exact ⟨fun h => ⟨h, Verb.onRow_of_onNewOrder h⟩, fun h => h.1⟩

/-! ### The rows that are written -/

/-- A transaction enters the poll loop of its rows when it has built them. -/
theorem Stretch.exists_install (h : Stretch cfg vec c cl trx cl' l) :
    (∀ cart cts assignedOID, cl'.phase = .newOrder cart (.install cts assignedOID) →
      ∃ base, cl' = NewOrderTransaction.installStep cfg c base cart cts assignedOID) ∧
    ∀ cart dID, cl'.phase = .delivery cart dID .install →
      ∃ base cts, cl' = (installStep cfg c base cart dID cts).1 := by
  cases h with
  | commit _ _ h =>
    cases h with
    | append | payment => exact ⟨nofun, nofun⟩
    | newOrder =>
      refine ⟨fun cart cts assignedOID hph => ?_, nofun⟩
      cases hph
      exact ⟨_, rfl⟩
    | delivery =>
      refine ⟨nofun, fun cart dID hph => ?_⟩
      cases hph
      exact ⟨_, _, rfl⟩
  | insert =>
    refine ⟨fun cart cts assignedOID hph => ?_, nofun⟩
    cases hph
    exact ⟨_, rfl⟩
  | call _ _ hp => rcases hp with rfl | rfl <;> exact ⟨nofun, nofun⟩
  | start _ h | snapshot _ _ _ h =>
    generalize cl.phase = ph at h
    cases h <;> exact ⟨nofun, nofun⟩
  | read h | lock h | giveUp h | log _ h | register h | publish h | stop _ _ h | abort _ _ h
  | finish h => cases h <;> exact ⟨nofun, nofun⟩
  | finishNewOrder => exact ⟨nofun, nofun⟩

theorem NewOrderTransaction.installStep_word {cart : NewOrderCart} {assignedOID : UInt32}
    {p : Key × ℕ} (hp : p ∈ insertSlots cfg c (installStep cfg c cl cart cts assignedOID) cart) :
    ((installStep cfg c cl cart cts assignedOID).copy p.1 p.2).writeTimestamp =
      .setAll false false 0 c cts := by
  simp only [insertSlots, List.mem_append, List.mem_cons, List.not_mem_nil, or_false,
    List.mem_map] at hp
  rcases hp with (rfl | rfl) | ⟨x, hx, rfl⟩
  · rfl
  · rfl
  · change (installedHeads cfg c cl cart cts assignedOID .orderLine x.2).writeTimestamp = _
    simp only [installedHeads, List.mem_zipIdx_iff_getElem?.1 hx]
    rfl

theorem DeliveryTransaction.installStep_word {cart : DeliveryCart} {dID : UInt8} {p : Key × ℕ}
    (hp : p ∈ slots cfg (installStep cfg c cl cart dID cts).1 cart (deletedRow cfg c cart)) :
    ∃ offset, ((installStep cfg c cl cart dID cts).1.copy p.1 p.2).writeTimestamp =
      .setAll (p.1.table = .newOrder) false offset c cts := by
  simp only [slots, List.mem_append, List.mem_cons, List.not_mem_nil, or_false,
    List.mem_map] at hp
  rcases hp with (rfl | rfl) | ⟨n, hn, rfl⟩
  · exact ⟨_, rfl⟩
  · exact ⟨_, Timestamp.markDeleted_setAll_true _ _ _ _⟩
  · have hlt : n < (oldest cfg cl cart).numOfOrderlines.toNat := List.mem_range.1 hn
    refine ⟨(orderLineV cl n).writeTimestamp.versionOffset, ?_⟩
    change (installedHeads cfg c cl cart cts .orderLine n).writeTimestamp = _
    simp only [installedHeads, if_pos hlt]
    rfl

def WritesRow (trx : Trx) (v : Verb) : Prop :=
  ∀ k x, v = .writeHead k x → k.isRow = true → x.writeTimestamp.isLocked = false ∧
    (k.table = .newOrder → ∀ cart dID, trx = .delivery cart dID →
      x.writeTimestamp.isDeleted = true)

/-! ## The invariant -/

/-- The outstanding verbs on rows are those of the phase, and the transaction in execution has
posted them. -/
structure RowsOK (cfg : Config) (c : ClientID) (cl : Client) : Prop where
  executes : ∀ wr ∈ cl.outstanding, wr.verb.onRow = true → cl.Executes wr.owner
  verbs : ∀ v ∈ cl.rowsPending, v ∈ cl.rowVerbs cfg c
  single : cl.outstanding.countP (·.verb.onNewOrder) ≤ 1
  writes : ∀ wr ∈ cl.outstanding, WritesRow wr.owner.trx wr.verb

theorem DeliveryTransaction.serverOf_of_mem_slots {cart : DeliveryCart} {row : Key}
    (hrow : cfg.serverOf row = cfg.getServerNum cart.wID) {p : Key × ℕ}
    (hp : p ∈ slots cfg cl cart row) : cfg.serverOf p.1 = cfg.getServerNum cart.wID := by
  simp only [slots, List.mem_append, List.mem_cons, List.not_mem_nil, or_false, List.mem_map] at hp
  rcases hp with (rfl | rfl) | ⟨n, -, rfl⟩
  · rfl
  · exact hrow
  · rfl

theorem Client.qp_of_mem_rowVerbs (h : v ∈ cl.rowVerbs cfg c) : v.qp cfg ∈ cl.waits cfg := by
  unfold rowVerbs at h
  split at h
  · rename_i cart cts assignedOID hph
    obtain ⟨p, hp, rfl⟩ := List.mem_map.1 h
    simp only [NewOrderTransaction.insertSlots, List.mem_append, List.mem_cons, List.not_mem_nil,
      or_false, List.mem_map] at hp
    simp only [waits, hph, List.mem_cons]
    rcases hp with (rfl | rfl) | ⟨x, -, rfl⟩ <;> exact .inr (.inl rfl)
  · rename_i cart dID cID cts hph
    obtain ⟨p, hp, rfl⟩ := List.mem_map.1 h
    simp only [waits, hph, lockVerb, Verb.qp, Config.qpOf,
      serverOf_of_mem_slots rfl hp]
    simp
  · rename_i cart dID hph
    obtain ⟨p, hp, rfl⟩ := List.mem_map.1 h
    simp only [waits, hph, revertVerb, Verb.qp, Config.qpOf,
      serverOf_of_mem_slots rfl (List.mem_filter.1 hp).1]
    simp
  · rename_i cart dID hph
    obtain ⟨p, hp, rfl⟩ := List.mem_map.1 h
    simp only [waits, hph, writeVerb, Verb.qp, Config.qpOf,
      serverOf_of_mem_slots rfl hp]
    simp
  · cases h

theorem RowsOK.settled (h : RowsOK cfg c cl) (hset : Settled cfg cl) : cl.rowsPending = [] := by
  rw [List.eq_nil_iff_forall_not_mem]
  intro v hv
  obtain ⟨wr, hwr, rfl, -⟩ := Client.mem_rowsPending.1 hv
  exact hset.lanes _ (Client.qp_of_mem_rowVerbs (h.verbs _ hv)) wr hwr rfl

theorem ClientStep.writesRow (h : ClientStep cfg vec c cl cl' o l) (hv : v ∈ cl'.rowVerbs cfg c)
    (htrx : cl'.phase.trx = some trx) : WritesRow trx v := by
  obtain ⟨_, _, _, -, hstretch⟩ := h.stretch
  intro k x hx hk
  subst hx
  unfold Client.rowVerbs at hv
  split at hv
  · rename_i cart cts assignedOID hph
    obtain ⟨base, rfl⟩ := hstretch.exists_install.1 _ _ _ hph
    obtain ⟨p, hp, hx⟩ := List.mem_map.1 hv
    cases hx
    refine ⟨?_, fun _ cart' dID hdel => ?_⟩
    · simp [NewOrderTransaction.installStep_word hp]
    · rw [hph, hdel] at htrx
      cases htrx
  · obtain ⟨p, -, hp⟩ := List.mem_map.1 hv
    cases hp
  · obtain ⟨p, -, hp⟩ := List.mem_map.1 hv
    cases hp
  · rename_i cart dID hph
    obtain ⟨base, cts, rfl⟩ := hstretch.exists_install.2 _ _ hph
    obtain ⟨p, hp, hx⟩ := List.mem_map.1 hv
    cases hx
    obtain ⟨offset, hword⟩ := installStep_word hp
    exact ⟨by simp [hword], fun htable _ _ _ => by simp [hword, htable]⟩
  · cases hv

theorem RowsOK.step (h : RowsOK cfg c cl) (hstep : ClientStep cfg vec c cl cl' o l)
    (hset : Settled cfg cl) : RowsOK cfg c cl' := by
  have hnil := h.settled hset
  have hpending := hstep.rowsPending hnil
  obtain ⟨posts, hadv⟩ := hstep.advance
  have hexecutes : ∀ wr ∈ cl'.outstanding, wr.verb.onRow = true → cl'.Executes wr.owner := by
    intro wr hwr hrow
    have hmem : wr.verb ∈ cl'.rowsPending := Client.mem_rowsPending.2 ⟨wr, hwr, rfl, hrow⟩
    rw [hadv.outstanding, List.mem_append] at hwr
    rcases hwr with hwr | hwr
    · have hold : wr.verb ∈ cl.rowsPending := Client.mem_rowsPending.2 ⟨wr, hwr, rfl, hrow⟩
      rw [hnil] at hold
      cases hold
    · obtain ⟨p, -, rfl⟩ := List.mem_map.1 hwr
      refine hadv.executes fun hidle => ?_
      rw [hpending, Client.rowVerbs_of_status (.inl hidle)] at hmem
      cases hmem
  refine ⟨hexecutes, fun v hv => hpending ▸ hv, ?_, fun wr hwr k x hv hk => ?_⟩
  · rw [Client.countP_outstanding, hpending]
    exact Client.countP_rowVerbs
  · have hrow : wr.verb.onRow = true := by rw [hv]; exact hk
    refine hstep.writesRow (v := wr.verb) ?_ (hexecutes wr hwr hrow).trx k x hv hk
    rw [← hpending]
    exact Client.mem_rowsPending.2 ⟨wr, hwr, rfl, hrow⟩

theorem DeliveryTransaction.rowSlots_congr {cart : DeliveryCart}
    (h : cl'.oldestUndeliveredOrderResp = cl.oldestUndeliveredOrderResp) :
    rowSlots cfg cl' cart = rowSlots cfg cl cart := by
  simp only [rowSlots, slots, newOrderRow, oldest, h]

theorem DeliveryTransaction.newOrderRow_congr {cart : DeliveryCart}
    (h : cl'.oldestUndeliveredOrderResp = cl.oldestUndeliveredOrderResp) :
    newOrderRow cfg cl' cart = newOrderRow cfg cl cart := by
  simp only [newOrderRow, oldest, h]

section

variable (h : ClientOK cfg s c cl) (ho : cl.Oldest cfg i wr)

include h ho

theorem ClientOK.index_land (hindex : cl.phase.asksIndex = false) :
    (s.land wr answer cl).oldestUndeliveredOrderResp = cl.oldestUndeliveredOrderResp := by
  by_cases hl : wr.verb.lands = true
  · have haw := h.awaits_of_lands ho hl
    obtain ⟨o, verb, sig⟩ := wr
    cases verb with
    | send n req =>
      cases req with
      | getOldestUndeliveredOrder =>
        simp [Client.awaits, IndexRequest.registers, hindex] at haw
      | _ => rfl
    | _ => rfl
  · rw [State.land_of_not_lands (by simpa using hl)]

theorem ClientOK.rowVerbs_land :
    ((s.land wr answer cl).complete i wr).rowVerbs cfg c = cl.rowVerbs cfg c := by
  by_cases hawait : cl.phase.awaitsNothing = true
  · rw [h.land_eq_self ho hawait]
    rfl
  have hphase : ((s.land wr answer cl).complete i wr).phase = cl.phase := rfl
  unfold Client.rowVerbs
  rw [hphase]
  cases hph : cl.phase with
  | idle | payment => rfl
  | newOrder cart pc =>
    cases pc with
    | install => simp [hph, Phase.awaitsNothing, Phase.readsHeads, Phase.fetches, Phase.isLocks,
        Phase.isNextOID, Phase.asksIndex, Phase.readsVector] at hawait
    | _ => rfl
  | delivery cart dID pc =>
    cases pc with
    | locks cID cts =>
      have hslots : rowSlots cfg ((s.land wr answer cl).complete i wr) cart =
          rowSlots cfg cl cart :=
        rowSlots_congr (h.index_land ho (by rw [hph]; rfl))
      simp only [hslots]
      refine List.map_congr_left fun p _ => ?_
      rw [Client.lockVerb, Client.lockVerb, h.copy_land ho (by rw [hph]; rfl)]
    | reverts | install => simp [hph, Phase.awaitsNothing, Phase.readsHeads, Phase.fetches,
        Phase.isLocks, Phase.isNextOID, Phase.asksIndex, Phase.readsVector] at hawait
    | _ => rfl

theorem RowsOK.effect (hrows : RowsOK cfg c cl) :
    RowsOK cfg c ((s.land wr answer cl).complete i wr) := by
  refine ⟨fun wr' hwr' hrow => ?_, fun v hv => ?_, ?_, fun wr' hwr' => ?_⟩
  · obtain ⟨htrx, hnumber⟩ := hrows.executes wr' (List.mem_of_mem_eraseIdx hwr') hrow
    exact ⟨htrx, hnumber⟩
  · obtain ⟨wr', hwr', rfl, hrow⟩ := Client.mem_rowsPending.1 hv
    rw [h.rowVerbs_land ho]
    exact hrows.verbs _
      (Client.mem_rowsPending.2 ⟨wr', List.mem_of_mem_eraseIdx hwr', rfl, hrow⟩)
  · exact Nat.le_trans (List.Sublist.countP_le (List.eraseIdx_sublist ..)) hrows.single
  · exact hrows.writes wr' (List.mem_of_mem_eraseIdx hwr')

end

/-- **The outstanding verbs on rows are those of the phase**, in every reachable state in which no
commit timestamp has wrapped. -/
theorem rowsOK_of_reachable (h : Reachable cfg s) (hwrap : NoWrap cfg s) (c : ClientID) :
    RowsOK cfg c (s.clients c) := by
  induction h generalizing c with
  | start hs =>
    have hnil := (hs.clients c).outstanding
    exact ⟨by simp [hnil], by simp [Client.rowsPending, hnil], by simp [hnil], by simp [hnil]⟩
  | next hs _ ha ih =>
    have hwrap' := hwrap.of_step ha
    have hinv := inv_of_reachable hs hwrap'
    rcases step_client_cases ha c with ⟨vec, cl, o, l, -, hstep, rfl⟩ | ⟨i, wr, answer, ho, rfl⟩ |
      helse
    · rw [State.setClient_clients_self]
      exact (ih hwrap' c).step hstep (hstep.settled (hinv.clients c))
    · rw [State.effect_clients_self]
      exact RowsOK.effect (hinv.clients c) ho (ih hwrap' c)
    · rw [helse.client]
      exact ih hwrap' c

/-! ## The course of a Delivery iteration -/

def Phase.rowCart : Phase → Option DeliveryCart
  | .delivery cart _ (.locks _ _) | .delivery cart _ .reverts | .delivery cart _ (.log _ _)
  | .delivery cart _ .install | .delivery cart _ .register | .delivery cart _ .publish => some cart
  | _ => none

theorem Phase.trx_of_rowCart {ph : Phase} {cart : DeliveryCart} (h : ph.rowCart = some cart) :
    (∃ dID, ph.trx = some (.delivery cart dID)) ∧ ph.status ≠ .idle ∧ ph.status ≠ .reading := by
  cases ph with
  | delivery cart' dID pc =>
    cases pc <;> first | cases h; done | (cases h; exact ⟨⟨dID, rfl⟩, nofun, nofun⟩)
  | _ => cases h

theorem Phase.eq_locks {ph : Phase} {cart : DeliveryCart} (h : ph.rowCart = some cart)
    (hlocks : ph.isLocks = true) : ∃ dID cID cts, ph = .delivery cart dID (.locks cID cts) := by
  cases ph with
  | delivery cart' dID pc =>
    cases pc with
    | locks =>
      cases h
      exact ⟨_, _, _, rfl⟩
    | _ => cases hlocks
  | _ => cases h

/-- What a step of the CPU means for the rows of a Delivery iteration. -/
inductive RowStep (cfg : Config) (cl cl' : Client) : Prop
  /-- There are none, or the iteration is over. -/
  | none (h' : cl'.phase.rowCart = none)
      (hover : cl'.phase.status = .idle ∨ cl.phase.rowCart = none)
  | lock (cart : DeliveryCart) (hst : cl.phase.status = .reading)
      (h' : cl'.phase.rowCart = some cart) (hlocks : cl'.phase.isLocks = true)
  | giveUp (cart : DeliveryCart) (h : cl.phase.rowCart = some cart)
      (hlocks : cl.phase.isLocks = true) (h' : cl'.phase.rowCart = some cart)
      (hst' : cl'.phase.status = .reverting) (hcopy : ∀ k b, cl'.copy k b = cl.copy k b)
      (hresult : ∀ k b, cl'.lockResult k b = cl.lockResult k b)
      (hindex : cl'.oldestUndeliveredOrderResp = cl.oldestUndeliveredOrderResp)
  | commit (cart : DeliveryCart) (h : cl.phase.rowCart = some cart)
      (hlocks : cl.phase.isLocks = true) (h' : cl'.phase.rowCart = some cart)
      (hst' : cl'.phase.status = .committing)
      (hwon : ∀ p ∈ rowSlots cfg cl cart,
        cl.lockResult p.1 p.2 = (cl.copy p.1 p.2).writeTimestamp)
      (hindex : cl'.oldestUndeliveredOrderResp = cl.oldestUndeliveredOrderResp)
  | proceed (cart : DeliveryCart) (h : cl.phase.rowCart = some cart)
      (hst : cl.phase.status = .committing) (h' : cl'.phase.rowCart = some cart)
      (hst' : cl'.phase.status = .committing)
      (hindex : cl'.oldestUndeliveredOrderResp = cl.oldestUndeliveredOrderResp)

namespace DeliveryTransaction

variable {cart : DeliveryCart} {dID : UInt8} {cID : UInt32}

theorem rowSlots_won (h : (orderLocked cl && newOrderLocked cl &&
      (List.range (oldest cfg cl cart).numOfOrderlines.toNat).all (orderLineLocked cl) &&
      customerLocked cl) = true) (hcls : cl.phase.cls = .delivery) :
    ∀ p ∈ rowSlots cfg cl cart, cl.lockResult p.1 p.2 = (cl.copy p.1 p.2).writeTimestamp := by
  intro p hp
  simp only [Bool.and_eq_true, List.all_eq_true, List.mem_range, orderLocked, newOrderLocked,
    orderLineLocked, Timestamp.isEqual_iff] at h
  obtain ⟨⟨⟨horder, hnew⟩, hlines⟩, -⟩ := h
  simp only [rowSlots, slots, List.mem_append, List.mem_cons, List.not_mem_nil, or_false,
    List.mem_map, List.mem_range] at hp
  simp only [Client.lockResult, Client.copy, Client.buffers, hcls]
  rcases hp with (rfl | rfl) | ⟨n, hn, rfl⟩
  · exact horder
  · exact hnew
  · exact hlines n hn

end DeliveryTransaction

theorem Phase.rowCart_of_status {ph : Phase} {st : Status} (h : ph.status = st)
    (hst : st = .idle ∨ st = .reading) : ph.rowCart = none := by
  cases hcart : ph.rowCart with
  | none => rfl
  | some cart =>
    obtain ⟨-, hidle, hreading⟩ := trx_of_rowCart hcart
    rcases hst with rfl | rfl
    · exact absurd h hidle
    · exact absurd h hreading

theorem Stretch.rowStep (h : Stretch cfg vec c cl trx cl' l) : RowStep cfg cl cl' := by
  have hreading : ∀ {cl' : Client} {st : Status}, cl.phase.status = st →
      (st = .idle ∨ st = .reading) → cl'.phase.status = .reading → RowStep cfg cl cl' :=
    fun hst hst' hcl => .none (Phase.rowCart_of_status hcl (.inr rfl))
      (.inr (Phase.rowCart_of_status hst hst'))
  have hidle : ∀ {cl' : Client}, cl'.phase.status = .idle → RowStep cfg cl cl' :=
    fun hcl => .none (Phase.rowCart_of_status hcl (.inl rfl)) (.inl hcl)
  cases h with
  | call _ _ hp => rcases hp with rfl | rfl <;> exact hidle rfl
  | start _ h => exact hreading h.phase.1 (.inl rfl) h.phase.2.1
  | read h | snapshot _ _ _ h => exact hreading h.phase.1 (.inr rfl) h.phase.2.1
  | stop _ _ h | abort _ _ h | finish h => exact hidle h.status
  | finishNewOrder => exact hidle rfl
  | lock h =>
    have hst := h.phase.1
    cases h with
    | newOrder | payment => exact .none rfl (.inr (Phase.rowCart_of_status hst (.inr rfl)))
    | delivery => exact .lock _ hst rfl rfl
  | giveUp h =>
    cases h with
    | newOrder hph | payment hph => exact .none rfl (.inr (by rw [hph]; rfl))
    | delivery hph =>
      have hcls : cl.phase.cls = .delivery := by rw [hph]; rfl
      refine .giveUp _ (by rw [hph]; rfl) (by rw [hph]; rfl) rfl rfl (fun k b => ?_)
        (fun k b => ?_) rfl
      · simp only [Client.copy, Client.buffers, hcls]
        rfl
      · simp only [Client.lockResult, Client.buffers, hcls]
        rfl
  | log _ h =>
    cases h with
    | newOrder hph | payment hph => exact .none rfl (.inr (by rw [hph]; rfl))
    | delivery hph hwon =>
      exact .commit _ (by rw [hph]; rfl) (by rw [hph]; rfl) rfl rfl
        (rowSlots_won hwon (by rw [hph]; rfl)) rfl
  | commit _ hbase h =>
    rcases hbase with ⟨hph, rfl⟩ | ⟨hwon, rfl⟩
    · cases h with
      | append | newOrder | payment => exact .none rfl (.inr (by rw [hph]; rfl))
      | delivery => exact .proceed _ (by rw [hph]; rfl) (by rw [hph]; rfl) rfl rfl rfl
    · cases hwon with
      | newOrder hph => cases h <;> exact .none rfl (.inr (by rw [hph]; rfl))
      | payment hph =>
        cases h
        exact .none rfl (.inr (by rw [hph]; rfl))
      | delivery hph hwon =>
        cases h
        exact .commit _ (by rw [hph]; rfl) (by rw [hph]; rfl) rfl rfl
          (rowSlots_won hwon (by rw [hph]; rfl)) rfl
  | insert hph => exact .none rfl (.inr (by rw [hph]; rfl))
  | register h =>
    cases h with
    | newOrder hph => exact .none rfl (.inr (by rw [hph]; rfl))
    | delivery hph => exact .proceed _ (by rw [hph]; rfl) (by rw [hph]; rfl) rfl rfl rfl
  | publish h =>
    cases h with
    | newOrder hph | payment hph => exact .none rfl (.inr (by rw [hph]; rfl))
    | delivery hph => exact .proceed _ (by rw [hph]; rfl) (by rw [hph]; rfl) rfl rfl rfl

theorem ClientStep.rowStep (h : ClientStep cfg vec c cl cl' o l) : RowStep cfg cl cl' := by
  obtain ⟨n, m, trx, -, hstretch⟩ := h.stretch
  cases hstretch.rowStep with
  | none h' hover => exact .none h' hover
  | lock cart hst h' hlocks => exact .lock cart hst h' hlocks
  | giveUp cart h hlocks h' hst' hcopy hresult hindex =>
    exact .giveUp cart h hlocks h' hst' hcopy hresult hindex
  | commit cart h hlocks h' hst' hwon hindex => exact .commit cart h hlocks h' hst' hwon hindex
  | proceed cart h hst h' hst' hindex => exact .proceed cart h hst h' hst' hindex

end RdmaSnapshot
