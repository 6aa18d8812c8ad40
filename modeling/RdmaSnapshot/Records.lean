import RdmaSnapshot.Trace
import RdmaSnapshot.Lib.LockWord

/-!
# The lock protocol of a record

Warehouse, District, Customer and Stock records are changed under a lock word. This module says
what a transaction that holds the lock may still do to the record, and what is true of the record
at any time: its word is that of its newest version, or the lock word of its holder; no two of its
versions were written by the same transaction; its ring holds versions it has had.

The counter `D_NEXT_O_ID` is incremented in place and outside the protocol. Versions are therefore
compared up to that counter.
-/

namespace RdmaSnapshot

variable {cfg : Config} {s : State} {c : ClientID} {k : Key} {i : ℕ} {wr : WorkRequest}
  {answer : IndexAnswer} {t : Ticket} {stage : Stage} {x y z v : Version (Row k.table)}

/-- The records that are changed under a lock word and keep older versions. -/
def Key.versioned : Key → Bool
  | .warehouse _ | .district _ _ | .customer _ _ _ | .stock _ _ => true
  | .item _ _ | .order _ _ | .newOrder _ _ | .orderLine _ _ | .history _ _ => false

@[simp] theorem lockTimestamp_timestamp (ts : Timestamp) (c : ClientID) (cts : UInt32) :
    (lockTimestamp ts c cts).timestamp = cts := rfl

/-! ## Versions up to the counter -/

/-- A row without the counter that the FAA increments. -/
def Key.mask : (k : Key) → Row k.table → Row k.table
  | .district _ _, row => { row with D_NEXT_O_ID := 0 }
  | .warehouse _, row | .customer _ _ _, row | .stock _ _, row | .item _ _, row
  | .order _ _, row | .newOrder _ _, row | .orderLine _ _, row | .history _ _, row => row

/-- The versions agree up to the counter that the FAA increments. -/
def SameVersion (k : Key) (x y : Version (Row k.table)) : Prop :=
  x.writeTimestamp = y.writeTimestamp ∧ k.mask x.body = k.mask y.body

theorem SameVersion.refl (x : Version (Row k.table)) : SameVersion k x x := ⟨rfl, rfl⟩

/-- Outside the District table versions that agree are equal. -/
theorem SameVersion.eq (h : SameVersion k x y) (hk : k.table ≠ .district) : x = y := by
  obtain ⟨hw, hb⟩ := h
  refine Version.ext hw ?_
  cases k with
  | district => exact absurd rfl hk
  | _ => exact hb

/-- The key fields are not touched by the counter. -/
theorem Key.names_iff_of_mask_eq {r r' : Row k.table} (h : k.mask r = k.mask r') :
    k.Names r ↔ k.Names r' := by
  cases k with
  | district wID dID =>
    simp only [mask, District.mk.injEq] at h
    simp [Names, h]
  | _ =>
    obtain rfl : r = r' := h
    rfl

/-! ## Commits -/

/-- `Built cfg t k x v`: the transaction of ticket `t` computes `v` from its copy `x` of record
`k`. -/
inductive Built (cfg : Config) (t : Ticket) :
    (k : Key) → Version (Row k.table) → Version (Row k.table) → Prop
  | stock {cart : NewOrderCart} {item : NewOrderItem} (ht : t.owner.trx = .newOrder cart)
      (hi : item ∈ cart.items) (x : Version Stock) :
      Built cfg t (.stock item.OL_SUPPLY_W_ID item.I_ID) x
        (NewOrderTransaction.newStockV cfg t.client t.word.timestamp item x)
  | nextOID {cart : NewOrderCart} (ht : t.owner.trx = .newOrder cart) (x : Version District) :
      Built cfg t (.district cart.wID cart.dID) x
        (NewOrderTransaction.newDistrictV cfg t.client t.word.timestamp x)
  | warehouse {cart : PaymentCart} (ht : t.owner.trx = .payment cart) (x : Version Warehouse) :
      Built cfg t (.warehouse cart.wID) x
        (PaymentTransaction.newWarehouseV cfg t.client cart t.word.timestamp x)
  | district {cart : PaymentCart} (ht : t.owner.trx = .payment cart) (x : Version District) :
      Built cfg t (.district cart.wID cart.dID) x
        (PaymentTransaction.newDistrictV cfg t.client cart t.word.timestamp x)
  | customer {cart : PaymentCart} (cID : UInt32) (ht : t.owner.trx = .payment cart)
      (x : Version Customer) :
      Built cfg t (.customer cart.residentWarehouseID cart.dID cID) x
        (PaymentTransaction.newCustomerV cfg t.client cart cID t.word.timestamp x)
  | delivered {cart : DeliveryCart} {dID : UInt8} (cID : UInt32) (amount : Float32)
      (ht : t.owner.trx = .delivery cart dID) (x : Version Customer) :
      Built cfg t (.customer cart.wID dID cID) x
        (DeliveryTransaction.newCustomerV t.client t.word.timestamp amount x)

/-- The word of an installed version names the transaction and is neither deleted nor locked. -/
theorem Built.writeTimestamp_eq (h : Built cfg t k x v) :
    ∃ offset, v.writeTimestamp = .setAll false false offset t.client t.word.timestamp := by
  cases h <;> exact ⟨_, rfl⟩

theorem Built.names (h : Built cfg t k x v) (hx : k.Names x.body) : k.Names v.body := by
  cases h <;> exact hx

/-- The verbs on record `k`, with the transactions that post them, that a client may have pending
or be about to post, given the lock it holds on `k` and the current version of `k`: nothing; the
release of the lock; the three WRITEs of a commit, of which the first ones may have taken effect. -/
inductive Conforms (cfg : Config) (k : Key) (cur : Version (Row k.table)) :
    Option (Ticket × Stage) → List (Owner × Verb) → Prop
  | free : Conforms cfg k cur none []
  | revert {t : Ticket} : Conforms cfg k cur (some (t, .locked))
      [(t.owner, .writeTimestamp k cur.writeTimestamp)]
  | push {t : Ticket} {x y v : Version (Row k.table)} (list : List Timestamp)
      (hx : SameVersion k x cur) (hy : SameVersion k y cur) (hv : Built cfg t k y v) :
      Conforms cfg k cur (some (t, .locked))
        [(t.owner, .writePointerList k list),
          (t.owner, .writeOlderVersion k x.writeTimestamp.versionOffset.toNat x),
          (t.owner, .writeHead k v)]
  | save {t : Ticket} {x y v : Version (Row k.table)} (hx : SameVersion k x cur)
      (hy : SameVersion k y cur) (hv : Built cfg t k y v) :
      Conforms cfg k cur (some (t, .pushed))
        [(t.owner, .writeOlderVersion k x.writeTimestamp.versionOffset.toNat x),
          (t.owner, .writeHead k v)]
  | install {t : Ticket} {y v : Version (Row k.table)} (hy : SameVersion k y cur)
      (hv : Built cfg t k y v) :
      Conforms cfg k cur (some (t, .saved)) [(t.owner, .writeHead k v)]

theorem Conforms.mine_eq_none {h : Option (Ticket × Stage)} {cur : Version (Row k.table)}
    (hc : Conforms cfg k cur h []) : h = none := by
  cases hc
  rfl

theorem Conforms.lands_eq_false {h : Option (Ticket × Stage)} {cur : Version (Row k.table)}
    {ops : List (Owner × Verb)} (hc : Conforms cfg k cur h ops) :
    ∀ p ∈ ops, p.2.lands = false := by
  cases hc <;> simp [Verb.lands]

theorem Conforms.built_of_mem {h : Option (Ticket × Stage)} {cur : Version (Row k.table)}
    {ops : List (Owner × Verb)} (hc : Conforms cfg k cur h ops) {o : Owner}
    (hmem : (o, .writeHead k v) ∈ ops) :
    ∃ t stage y, h = some (t, stage) ∧ t.owner = o ∧ SameVersion k y cur ∧ Built cfg t k y v := by
  cases hc with
  | free => cases hmem
  | revert => simp at hmem
  | push _ _ hy hv | save _ hy hv | install hy hv =>
    simp only [List.mem_cons, List.not_mem_nil, Prod.mk.injEq, reduceCtorEq, and_false, false_or,
      Verb.writeHead.injEq, heq_eq_eq, true_and, or_false] at hmem
    obtain ⟨rfl, rfl⟩ := hmem
    exact ⟨_, _, _, rfl, rfl, hy, hv⟩

/-! ## The invariant of a record -/

/-- Head words, versions and tickets of record `k`, as a lock word over a version history. -/
def lockScheme (k : Key) :
    LockWord.Scheme (Version (Row k.table)) Timestamp (ClientID × UInt32) Ticket where
  word v := v.writeTimestamp
  writer := Timestamp.writer
  locked w := w.isLocked = true
  ticketWord := Ticket.word

/-- The ticket of a holder of a record whose current version has word `word`. -/
structure Ticket.Valid (cfg : Config) (s : State) (word : Timestamp) (t : Ticket) : Prop where
  client : t.client.toNat < cfg.clientCnt
  word_eq : t.word = lockTimestamp word t.client t.word.timestamp
  timestamp : t.word.timestamp.toNat < s.nextCts cfg t.client

/-- The invariant of a versioned record. -/
structure RecordOK (cfg : Config) (s : State) (k : Key) : Prop where
  lockWord : LockWord.Inv (lockScheme k) (s.versions k) ((s.holder k).map Prod.fst)
    (s.mem k).head.writeTimestamp
  alive : ∀ v ∈ s.versions k, v.writeTimestamp.isDeleted = false
  names : ∀ v ∈ s.versions k, k.Names v.body
  fresh : ∀ v ∈ s.versions k, v.writeTimestamp.clientID.toNat < cfg.clientCnt →
    v.writeTimestamp.timestamp.toNat < s.nextCts cfg v.writeTimestamp.clientID
  body : k.mask (s.mem k).head.body = k.mask (s.current k).body
  ring : ∀ slot, ((s.mem k).olderVersions slot).writeTimestamp.isDeleted = true ∨
    ∃ v ∈ s.versions k, SameVersion k ((s.mem k).olderVersions slot) v
  ticket : ∀ t stage, s.holder k = some (t, stage) →
    t.Valid cfg s (s.current k).writeTimestamp

abbrev RecordsOK (cfg : Config) (s : State) : Prop := ∀ k, k.versioned = true → RecordOK cfg s k

namespace RecordOK

variable (h : RecordOK cfg s k)

include h

theorem isLocked_iff :
    (s.mem k).head.writeTimestamp.isLocked = true ↔ (s.holder k).isSome = true := by
  have hiff := h.lockWord.locked_iff (s.versions_ne_nil k)
  rwa [Option.isSome_map] at hiff

theorem held_of_locked (hlocked : (s.mem k).head.writeTimestamp.isLocked = true) :
    ∃ t stage, s.holder k = some (t, stage) ∧ (s.mem k).head.writeTimestamp = t.word := by
  obtain ⟨⟨t, stage⟩, hholder⟩ := Option.isSome_iff_exists.1 (h.isLocked_iff.1 hlocked)
  exact ⟨t, stage, hholder, (h.lockWord.held t (by simp [hholder])).1⟩

theorem head_of_free (hfree : s.holder k = none) : SameVersion k (s.mem k).head (s.current k) :=
  ⟨h.lockWord.free (by simp [hfree]) _ (s.head?_versions k), h.body⟩

theorem eq_of_word_eq (hx : x ∈ s.versions k) (hy : y ∈ s.versions k)
    (hxy : x.writeTimestamp = y.writeTimestamp) : x = y :=
  h.lockWord.eq_of_word_eq hx hy hxy

theorem head_cases : (s.mem k).head.writeTimestamp.isLocked = true ∨
      SameVersion k (s.mem k).head (s.current k) := by
  cases hh : s.holder k with
  | none => exact .inr (h.head_of_free hh)
  | some p => exact .inl (h.isLocked_iff.2 (by simp [hh]))

/-- The invariant depends on the history, the holder, the head and the ring only, and timestamps
may have been acquired in between. -/
theorem congr {s' : State} (hversions : s'.versions k = s.versions k)
    (hcurrent : s'.current k = s.current k) (hholder : s'.holder k = s.holder k)
    (hword : (s'.mem k).head.writeTimestamp = (s.mem k).head.writeTimestamp)
    (hbody : k.mask (s'.mem k).head.body = k.mask (s.mem k).head.body)
    (hring : (s'.mem k).olderVersions = (s.mem k).olderVersions)
    (hnext : ∀ c, s.nextCts cfg c ≤ s'.nextCts cfg c) : RecordOK cfg s' k where
  lockWord := by
    rw [hversions, hholder, hword]
    exact h.lockWord
  alive := by
    rw [hversions]
    exact h.alive
  names := by
    rw [hversions]
    exact h.names
  fresh := by
    rw [hversions]
    intro v hv hc
    exact Nat.lt_of_lt_of_le (h.fresh v hv hc) (hnext _)
  body := by rw [hbody, hcurrent, h.body]
  ring := by
    rw [hversions, hring]
    exact h.ring
  ticket := by
    rw [hholder, hcurrent]
    intro t stage ht
    have hvalid := h.ticket t stage ht
    exact ⟨hvalid.client, hvalid.word_eq, Nat.lt_of_lt_of_le hvalid.timestamp (hnext _)⟩

/-! ## Steps of the protocol -/

theorem of_not_mutates (hv : wr.verb.mutates k = false) :
    RecordOK cfg (s.effect c i wr answer) k := by
  have hne : ∀ v, wr.verb ≠ .writeHead k v := by
    intro v hwr
    simp [hwr, Verb.mutates] at hv
  have hmem : ((s.effect c i wr answer).mem k).head.writeTimestamp =
        (s.mem k).head.writeTimestamp ∧
      k.mask ((s.effect c i wr answer).mem k).head.body = k.mask (s.mem k).head.body ∧
      ((s.effect c i wr answer).mem k).olderVersions = (s.mem k).olderVersions := by
    rw [State.effect_mem]
    by_cases hfaa : ∃ wID dID, wr.verb = .fetchAndAdd wID dID ∧ k = .district wID dID
    · -- the FAA changes the one field that the mask hides
      obtain ⟨wID, dID, hwr, rfl⟩ := hfaa
      rw [hwr]
      simp [Verb.apply, Key.mask]
    · rw [Verb.apply_of_not_mutates hv fun wID dID hwr hk => hfaa ⟨wID, dID, hwr, hk⟩]
      exact ⟨rfl, rfl, rfl⟩
  exact h.congr (State.versions_effect_of_ne hne) (State.current_effect_of_ne hne)
    (State.holder_effect_of_not_mutates hv) hmem.1 hmem.2.1 hmem.2.2 fun c => by
      simp [State.nextCts]

theorem noSwap {oldTS newTS : Timestamp} {b : ℕ} (hv : wr.verb = .compareAndSwap k oldTS newTS b)
    (hw : (s.mem k).head.writeTimestamp ≠ oldTS) : RecordOK cfg (s.effect c i wr answer) k := by
  have hne : ∀ v, wr.verb ≠ .writeHead k v := by
    intro v hwr
    simp [hv] at hwr
  have hmem : (s.effect c i wr answer).mem = s.mem := by
    simp [hv, Verb.apply, hw]
  refine h.congr (State.versions_effect_of_ne hne) (State.current_effect_of_ne hne)
    (State.holder_effect_noSwap hv hw) ?_ ?_ ?_ ?_
  · rw [hmem]
  · rw [hmem]
  · rw [hmem]
  · simp [State.nextCts]

/-- The word of a record is that of one of its versions only if nobody holds the record and that
version is the current one: a word that was replaced never comes back. -/
theorem current_of_word_eq (hx : x ∈ s.versions k)
    (hw : (s.mem k).head.writeTimestamp = x.writeTimestamp) :
    s.holder k = none ∧ s.current k = x := by
  have hfree : s.holder k = none := by
    have hunlocked : ¬ x.writeTimestamp.isLocked = true := h.lockWord.unlocked x hx
    rw [← hw, h.isLocked_iff] at hunlocked
    simpa using hunlocked
  refine ⟨hfree, h.eq_of_word_eq (s.current_mem k) hx ?_⟩
  rw [← hw, (h.head_of_free hfree).1]

theorem of_kept (hne : ∀ v, wr.verb ≠ .writeHead k v)
    (hlock : LockWord.Inv (lockScheme k) (s.versions k)
      (((s.effect c i wr answer).holder k).map Prod.fst)
      ((s.effect c i wr answer).mem k).head.writeTimestamp)
    (hbody : ((s.effect c i wr answer).mem k).head.body = (s.mem k).head.body)
    (hring : ∀ slot,
      ((s.effect c i wr answer).mem k).olderVersions slot = (s.mem k).olderVersions slot ∨
      SameVersion k (((s.effect c i wr answer).mem k).olderVersions slot) (s.current k))
    (hticket : ∀ t stage, (s.effect c i wr answer).holder k = some (t, stage) →
      t.Valid cfg s (s.current k).writeTimestamp) :
    RecordOK cfg (s.effect c i wr answer) k := by
  have hversions : (s.effect c i wr answer).versions k = s.versions k :=
    State.versions_effect_of_ne hne
  have hcurrent : (s.effect c i wr answer).current k = s.current k := State.current_effect_of_ne hne
  exact {
    lockWord := by rwa [hversions]
    alive := by
      rw [hversions]
      exact h.alive
    names := by
      rw [hversions]
      exact h.names
    fresh := by
      rw [hversions]
      simpa [State.nextCts] using h.fresh
    body := by rw [hbody, hcurrent, h.body]
    ring := by
      intro slot
      rw [hversions]
      rcases hring slot with hslot | hslot
      · rw [hslot]
        exact h.ring slot
      · exact .inr ⟨_, s.current_mem k, hslot⟩
    ticket := by
      rw [hcurrent]
      intro t stage ht
      have hvalid := hticket t stage ht
      exact ⟨hvalid.client, hvalid.word_eq, by simpa [State.nextCts] using hvalid.timestamp⟩ }

theorem acquire {cts : UInt32} {b : ℕ} (hfree : s.holder k = none)
    (hv : wr.verb = .compareAndSwap k (s.current k).writeTimestamp
      (lockTimestamp (s.current k).writeTimestamp c cts) b)
    (hc : c.toNat < cfg.clientCnt) (hcts : cts.toNat < s.nextCts cfg c)
    (hfresh : ∀ u ∈ s.versions k, u.writeTimestamp.writer ≠ (c, cts)) :
    RecordOK cfg (s.effect c i wr answer) k := by
  have hw : (s.mem k).head.writeTimestamp = (s.current k).writeTimestamp := (h.head_of_free hfree).1
  have hne : ∀ v, wr.verb ≠ .writeHead k v := by
    intro v hwr
    simp [hv] at hwr
  have hholder : (s.effect c i wr answer).holder k =
      some (⟨c, wr.owner, lockTimestamp (s.current k).writeTimestamp c cts⟩, .locked) :=
    State.holder_effect_swap hv hw
  have hmem : (s.effect c i wr answer).mem k =
      { s.mem k with
        head := ⟨lockTimestamp (s.current k).writeTimestamp c cts, (s.mem k).head.body⟩ } := by
    simp [hv, Verb.apply, hw]
  have hinv := h.lockWord.acquire
    (t := ⟨c, wr.owner, lockTimestamp (s.current k).writeTimestamp c cts⟩) (s.current_mem k) hw
    (by simp [lockScheme, lockTimestamp]) (by
      intro hmem
      obtain ⟨u, hu, hwriter⟩ := List.mem_map.1 hmem
      exact hfresh u hu hwriter)
  refine h.of_kept hne ?_ (by rw [hmem]) (fun slot => .inl (by rw [hmem])) fun t stage ht => ?_
  · rw [hholder, hmem]
    exact hinv.2.2
  · rw [hholder] at ht
    cases ht
    exact ⟨hc, rfl, hcts⟩

theorem revert (hh : s.holder k = some (t, stage))
    (hv : wr.verb = .writeTimestamp k (s.current k).writeTimestamp) :
    RecordOK cfg (s.effect c i wr answer) k := by
  have hne : ∀ v, wr.verb ≠ .writeHead k v := by
    intro v hwr
    simp [hv] at hwr
  have hholder : (s.effect c i wr answer).holder k = none := State.holder_effect_writeTimestamp hv
  have hmem : (s.effect c i wr answer).mem k =
      { s.mem k with head := ⟨(s.current k).writeTimestamp, (s.mem k).head.body⟩ } := by
    simp [hv, Verb.apply]
  have hlock := h.lockWord
  rw [hh] at hlock
  refine h.of_kept hne ?_ (by rw [hmem]) (fun slot => .inl (by rw [hmem])) (by simp [hholder])
  rw [hholder, hmem]
  exact hlock.release (s.head?_versions k)

/-- The holder writes the pointer list or the ring: what happens to the holder's stage, the list
and the ring does not matter as long as the ring holds versions of the record. -/
theorem append {stage' : Stage} (hne : ∀ v, wr.verb ≠ .writeHead k v)
    (hh : s.holder k = some (t, stage))
    (hholder : (s.effect c i wr answer).holder k = some (t, stage'))
    (hhead : ((s.effect c i wr answer).mem k).head = (s.mem k).head)
    (hring : ∀ slot,
      ((s.effect c i wr answer).mem k).olderVersions slot = (s.mem k).olderVersions slot ∨
      SameVersion k (((s.effect c i wr answer).mem k).olderVersions slot) (s.current k)) :
    RecordOK cfg (s.effect c i wr answer) k := by
  have hlock := h.lockWord
  rw [hh] at hlock
  refine h.of_kept hne ?_ (by rw [hhead]) hring fun t' stage'' ht => ?_
  · rw [hholder, hhead]
    exact hlock
  · rw [hholder] at ht
    cases ht
    exact h.ticket t stage hh

theorem push (hh : s.holder k = some (t, stage)) {list : List Timestamp}
    (hv : wr.verb = .writePointerList k list) : RecordOK cfg (s.effect c i wr answer) k := by
  have hholder : (s.effect c i wr answer).holder k = some (t, .pushed) := by
    rw [State.holder_effect_writePointerList hv, hh]
    rfl
  refine h.append ?_ hh hholder ?_ fun slot => .inl ?_
  · intro v hwr
    simp [hv] at hwr
  · simp [hv, Verb.apply]
  · simp [hv, Verb.apply]

theorem save (hh : s.holder k = some (t, stage)) {slot : ℕ}
    (hv : wr.verb = .writeOlderVersion k slot x) (hx : SameVersion k x (s.current k)) :
    RecordOK cfg (s.effect c i wr answer) k := by
  have hholder : (s.effect c i wr answer).holder k = some (t, .saved) := by
    rw [State.holder_effect_writeOlderVersion hv, hh]
    rfl
  refine h.append ?_ hh hholder ?_ fun slot' => ?_
  · intro v hwr
    simp [hv] at hwr
  · simp [hv, Verb.apply]
  · by_cases hslot : slot' = slot
    · subst hslot
      right
      simpa [hv, Verb.apply] using hx
    · left
      simp [hv, Verb.apply, hslot]

theorem install (hh : s.holder k = some (t, stage))
    (hv : wr.verb = .writeHead k v) (hx : SameVersion k x (s.current k))
    (hbuilt : Built cfg t k x v) : RecordOK cfg (s.effect c i wr answer) k := by
  have hversions : (s.effect c i wr answer).versions k = v :: s.versions k :=
    State.versions_effect_writeHead hv
  have hcurrent : (s.effect c i wr answer).current k = v := State.current_effect_writeHead hv
  have hholder : (s.effect c i wr answer).holder k = none := State.holder_effect_writeHead hv
  have hmem : (s.effect c i wr answer).mem k = { s.mem k with head := v } := by
    simp [hv, Verb.apply]
  have hlock := h.lockWord
  rw [hh] at hlock
  have hvalid := h.ticket t stage hh
  obtain ⟨offset, hword⟩ := hbuilt.writeTimestamp_eq
  have hmemWord : (s.mem k).head.writeTimestamp = t.word := (hlock.held t rfl).1
  have hnames : k.Names x.body := (Key.names_iff_of_mask_eq hx.2).2 (h.names _ (s.current_mem k))
  exact {
    lockWord := by
      rw [hversions, hholder, hmem]
      refine hlock.install ?_ ?_
      · simp only [lockScheme, hword, hmemWord, Timestamp.writer_setAll]
        rw [hvalid.word_eq]
        rfl
      · simp [lockScheme, hword]
    alive := by
      rw [hversions]
      intro u hu
      rcases List.mem_cons.1 hu with rfl | hu
      · simp [hword]
      · exact h.alive u hu
    names := by
      rw [hversions]
      intro u hu
      rcases List.mem_cons.1 hu with rfl | hu
      · exact hbuilt.names hnames
      · exact h.names u hu
    fresh := by
      rw [hversions]
      intro u hu hc
      rcases List.mem_cons.1 hu with rfl | hu
      · simpa [hword, State.nextCts] using hvalid.timestamp
      · simpa [State.nextCts] using h.fresh u hu hc
    body := by rw [hmem, hcurrent]
    ring := by
      intro slot
      rw [hversions, hmem]
      rcases h.ring slot with hslot | ⟨u, hu, hslot⟩
      · exact .inl hslot
      · exact .inr ⟨u, List.mem_cons_of_mem _ hu, hslot⟩
    ticket := by
      rw [hholder]
      simp }

end RecordOK

end RdmaSnapshot
