import RdmaSnapshot.Publication

/-!
# Where words come from

Every word in front of a version, wherever the version is (in the memory of a server, in its ring,
in a buffer of a client or on its way), is the word of the populated versions or names a
transaction that has acquired its commit timestamp.
-/

namespace RdmaSnapshot

open DBExecutor

variable {cfg : Config} {s s' : State} {c c' : ClientID} {cl cl' base : Client} {o : Owner}
  {l : CpuLabel} {k : Key} {cts : UInt32} {i g : ℕ} {wr : WorkRequest} {answer : IndexAnswer}
  {vec : ClientID → UInt32} {trx : Trx} {posts : List Post} {P : Timestamp → Prop}

def Verb.words : Verb → List Timestamp
  | .compareAndSwap _ _ newTS _ => [newTS]
  | .writeTimestamp _ ts => [ts]
  | .writeOlderVersion _ _ v => [v.writeTimestamp]
  | .writeHead _ v => [v.writeTimestamp]
  | _ => []

theorem Verb.words_of_kind {v : Verb} (h : v.kind = .read) : v.words = [] := by
  cases v <;> first | rfl | cases h

def Phase.buildCts : Phase → Option UInt32
  | .newOrder _ (.locks cts) | .newOrder _ (.log cts) | .newOrder _ (.nextOID cts)
  | .payment _ (.locks _ cts) | .payment _ (.log _ cts) | .delivery _ _ (.locks _ cts)
  | .delivery _ _ (.log _ cts) => some cts
  | _ => none

/-- The words in the head buffers and in the queue of a client satisfy `P`. -/
structure Client.Words (P : Timestamp → Prop) (cl : Client) : Prop where
  heads : ∀ cls t i, P ((cl.localMemory cls).head t i).writeTimestamp
  outstanding : ∀ wr ∈ cl.outstanding, ∀ w ∈ wr.verb.words, P w

def Builds (P : Timestamp → Prop) (c : ClientID) (cts : UInt32) : Prop :=
  ∀ deleted locked offset, P (.setAll deleted locked offset c cts)

/-! ## Steps of the client's CPU -/

namespace Client.Words

theorem post (h : base.Words P) (hposts : ∀ p ∈ posts, ∀ w ∈ p.verb.words, P w) :
    (base.post trx posts).Words P where
  heads := h.heads
  outstanding := by
    intro wr hwr
    rcases List.mem_append.1 hwr with hwr | hwr
    · exact h.outstanding wr hwr
    · obtain ⟨p, hp, rfl⟩ := List.mem_map.1 hwr
      exact hposts p hp

theorem postLog (h : base.Words P) (servers : List ℕ) : (base.postLog trx servers).Words P where
  heads := h.heads
  outstanding := by
    intro wr hwr
    rcases List.mem_append.1 hwr with hwr | hwr
    · exact h.outstanding wr hwr
    · obtain ⟨n, -, rfl⟩ := List.mem_map.1 hwr
      intro w hw
      cases hw

theorem setLocal (h : cl.Words P) {cls : TrxClass} {m : LocalMemory}
    (hm : ∀ t i, P (m.head t i).writeTimestamp) : (cl.setLocal cls m).Words P where
  heads := by
    intro cls' t i
    by_cases hc : cls' = cls
    · subst hc
      simpa [Client.setLocal] using hm t i
    · simpa [Client.setLocal, hc] using h.heads cls' t i
  outstanding := h.outstanding

end Client.Words

theorem LocalMemory.setHead_words {m : LocalMemory} {t : Table} {n : ℕ} {v : Version (Row t)}
    (hm : ∀ t i, P (m.head t i).writeTimestamp) (hv : P v.writeTimestamp) :
    ∀ t' i', P ((m.setHead t n v).head t' i').writeTimestamp := by
  intro t' i'
  by_cases ht : t' = t ∧ i' = n
  · obtain ⟨rfl, rfl⟩ := ht
    rw [setHead_head_self]
    exact hv
  · rw [setHead_head_of_ne]
    · exact hm t' i'
    · by_cases h : t' = t
      · exact .inr fun hi => ht ⟨h, hi⟩
      · exact .inl h

namespace NewOrderTransaction

variable {cart : NewOrderCart} {assignedOID : UInt32}

theorem words_appendPosts (h : cl.Words P) :
    ∀ p ∈ appendPosts cfg cl cart, ∀ w ∈ p.verb.words, P w := by
  intro p hp w hw
  rcases List.mem_append.1 hp with hp | hp
  · split at hp
    · cases hp
    · rcases List.mem_pair.1 hp with rfl | rfl
      · cases hw
      · rw [List.mem_singleton.1 hw]
        exact h.heads _ _ _
  · obtain ⟨x, -, hp⟩ := List.mem_flatMap.1 hp
    rcases List.mem_pair.1 hp with rfl | rfl
    · cases hw
    · rw [List.mem_singleton.1 hw]
      exact h.heads _ _ _

theorem words_installPosts (hb : Builds P c cts) :
    ∀ p ∈ installPosts cfg c cl cart cts assignedOID, ∀ w ∈ p.verb.words, P w := by
  intro p hp w hw
  rw [installPosts_eq, List.mem_append] at hp
  rcases hp with hp | hp
  · rcases List.mem_pair.1 hp with rfl | rfl <;>
      rw [List.mem_singleton.1 hw] <;> exact hb false false _
  · obtain ⟨x, -, hp⟩ := List.mem_flatMap.1 hp
    rcases List.mem_pair.1 hp with rfl | rfl <;>
      rw [List.mem_singleton.1 hw] <;> exact hb false false _

theorem words_installedHeads (h : cl.Words P) (hb : Builds P c cts) (t : Table) (n : ℕ) :
    P (installedHeads cfg c cl cart cts assignedOID t n).writeTimestamp := by
  unfold installedHeads
  split
  · exact hb false false _
  · exact hb false false _
  · split
    · exact hb false false _
    · exact h.heads _ _ _
  · split
    · exact hb false false _
    · exact h.heads _ _ _
  · exact h.heads _ _ _

theorem words_appended (h : cl.Words P) : (appended cfg cl cart).Words P := by
  have hset : (cl.setLocal .newOrder
      { buffers cl with pointerList := pushedLists cfg cl cart }).Words P :=
    h.setLocal (h.heads .newOrder)
  exact ⟨hset.heads, hset.outstanding⟩

theorem words_installStep (h : cl.Words P) (hb : Builds P c cts) :
    (installStep cfg c cl cart cts assignedOID).Words P := by
  have hset : (cl.setLocal .newOrder
      { buffers cl with head := installedHeads cfg c cl cart cts assignedOID }).Words P :=
    h.setLocal (words_installedHeads h hb)
  exact Client.Words.post ⟨hset.heads, hset.outstanding⟩ (words_installPosts hb)

end NewOrderTransaction

namespace PaymentTransaction

variable {cart : PaymentCart} {cID : UInt32}

theorem words_posts (h : cl.Words P) (hb : Builds P c cts) :
    ∀ p ∈ appendPosts cfg cl ++ installPosts cfg c cl cart cID cts,
      ∀ w ∈ p.verb.words, P w := by
  intro p hp w hw
  simp only [appendPosts, installPosts, List.mem_append, List.mem_cons, List.not_mem_nil,
    or_false] at hp
  rcases hp with (rfl | rfl | rfl | rfl | rfl | rfl) | (rfl | rfl | rfl | rfl)
  · cases hw
  · rw [List.mem_singleton.1 hw]
    exact h.heads _ _ _
  · cases hw
  · rw [List.mem_singleton.1 hw]
    exact h.heads _ _ _
  · cases hw
  · rw [List.mem_singleton.1 hw]
    exact h.heads _ _ _
  all_goals
    rw [List.mem_singleton.1 hw]
    exact hb false false _

theorem words_installStep (h : cl.Words P) (hb : Builds P c cts) :
    (installStep cfg c cl cart cID cts).1.Words P := by
  have hset : (cl.setLocal .payment (installed cfg c cl cart cID cts)).Words P := by
    refine h.setLocal ?_
    refine LocalMemory.setHead_words (LocalMemory.setHead_words (LocalMemory.setHead_words
      (LocalMemory.setHead_words (h.heads .payment) ?_) ?_) ?_) ?_ <;> exact hb false false _
  exact Client.Words.post ⟨hset.heads, hset.outstanding⟩ (words_posts h hb)

end PaymentTransaction

namespace DeliveryTransaction

variable {cart : DeliveryCart} {dID : UInt8} {cID : UInt32}

theorem words_installPosts (h : cl.Words P) (hb : Builds P c cts) :
    ∀ p ∈ installPosts cfg c cl cart cts, ∀ w ∈ p.verb.words, P w := by
  intro p hp w hw
  simp only [installPosts, appendPosts, rowPosts, List.mem_append, List.mem_pair, List.mem_map,
    List.mem_singleton] at hp
  rcases hp with ((rfl | rfl) | (rfl | rfl) | ⟨n, -, rfl⟩) | rfl
  · cases hw
  · rw [List.mem_singleton.1 hw]
    exact h.heads _ _ _
  · rw [List.mem_singleton.1 hw]
    exact hb false false _
  · rw [List.mem_singleton.1 hw, deletedNewOrderV, Timestamp.markDeleted_setAll_true]
    exact hb true false _
  · rw [List.mem_singleton.1 hw]
    exact hb false false _
  · rw [List.mem_singleton.1 hw]
    exact hb false false _

theorem words_installedHeads (h : cl.Words P) (hb : Builds P c cts) (t : Table) (n : ℕ) :
    P (installedHeads cfg c cl cart cts t n).writeTimestamp := by
  unfold installedHeads
  split
  · exact hb false false _
  · rw [deletedNewOrderV, Timestamp.markDeleted_setAll_true]
    exact hb true false _
  · split
    · exact hb false false _
    · exact h.heads _ _ _
  · exact hb false false _
  · exact h.heads _ _ _

theorem words_installStep (h : cl.Words P) (hb : Builds P c cts) :
    (installStep cfg c cl cart dID cts).1.Words P := by
  have hset : (cl.setLocal .delivery
      { buffers cl with
        head := installedHeads cfg c cl cart cts
        pointerList := pushedLists cfg cl }).Words P :=
    h.setLocal (words_installedHeads h hb)
  exact Client.Words.post ⟨hset.heads, hset.outstanding⟩ (words_installPosts h hb)

end DeliveryTransaction

theorem EntersCommit.words {p : Phase} (h : EntersCommit cfg c cl p cl') (hw : cl.Words P)
    (hb : ∀ cts, p.buildCts = some cts → Builds P c cts) : cl'.Words P := by
  cases h with
  | append cart cts =>
    have happended : (NewOrderTransaction.appended cfg cl cart).Words P :=
      NewOrderTransaction.words_appended hw
    refine Client.Words.post ⟨happended.heads, happended.outstanding⟩ fun q hq => ?_
    rcases List.mem_append.1 hq with hq | hq
    · exact NewOrderTransaction.words_appendPosts hw q hq
    · rw [List.mem_singleton.1 hq]
      exact fun w hw => nomatch hw
  | newOrder cart cts =>
    have hb := hb cts rfl
    have hposted : ((NewOrderTransaction.appended cfg cl cart).post (.newOrder cart)
        (NewOrderTransaction.appendPosts cfg cl cart)).Words P :=
      (NewOrderTransaction.words_appended hw).post (NewOrderTransaction.words_appendPosts hw)
    refine NewOrderTransaction.words_installStep (Client.Words.post (hposted.setLocal ?_)
      fun q hq w hw => ?_) hb
    · exact LocalMemory.setHead_words (hposted.heads .newOrder) (hb false false _)
    · rw [List.mem_singleton.1 hq] at hw
      rw [List.mem_singleton.1 hw]
      exact hb false false _
  | payment cart cID cts => exact PaymentTransaction.words_installStep hw (hb cts rfl)
  | delivery cart dID cID cts => exact DeliveryTransaction.words_installStep hw (hb cts rfl)

theorem Won.buildCts {p : Phase} (h : Won cfg cl p) : p.buildCts = cl.phase.buildCts := by
  cases h with
  | newOrder hph | payment hph | delivery hph => rw [hph]; rfl

theorem Stretch.words (h : Stretch cfg vec c cl trx cl' l) (hw : cl.Words P)
    (hcts : ∀ cts, cl.phase.buildCts = some cts ∨ l = .acquire cts → Builds P c cts) :
    cl'.Words P := by
  -- posts without words
  have hnone : ∀ {base : Client} {posts : List Post}, base.localMemory = cl.localMemory →
      base.outstanding = cl.outstanding → (∀ q ∈ posts, q.verb.words = []) →
      (base.post trx posts).Words P := by
    intro base posts hmem hout hposts
    refine Client.Words.post ⟨by rw [hmem]; exact hw.heads, by rw [hout]; exact hw.outstanding⟩ ?_
    intro q hq w hw
    rw [hposts q hq] at hw
    cases hw
  have hfetch : ∀ {q : Post}, q.verb.fetches = true → q.verb.words = [] :=
    fun hq => Verb.words_of_kind (Verb.of_fetches hq).1
  cases h with
  | call | stop | abort | finishNewOrder | finish => exact ⟨hw.heads, hw.outstanding⟩
  | start _ h =>
    refine hnone rfl rfl fun q hq => ?_
    rcases List.mem_append.1 hq with hq | hq
    · rw [mem_startPosts hq]
      rfl
    · exact hfetch (h.fetches q hq)
  | read h => exact hnone rfl rfl fun q hq => hfetch (h.fetches q hq)
  | snapshot vec' _ hposts =>
    refine hnone rfl rfl fun q hq => ?_
    rcases hposts q hq with hv | ⟨id, hv⟩ <;> rw [hv] <;> rfl
  | lock h =>
    refine Client.Words.post ⟨hw.heads, hw.outstanding⟩ fun q hq w hmem => ?_
    obtain ⟨k, oldTS, offset, b, hv⟩ := h.swaps q hq
    rw [hv] at hmem
    rw [List.mem_singleton.1 hmem]
    exact hcts _ (.inr rfl) false true offset
  | giveUp h =>
    refine Client.Words.post ⟨hw.heads, hw.outstanding⟩ fun q hq w hmem => ?_
    obtain ⟨⟨k, cls, t, i, hv⟩, -⟩ := h.restores q hq
    rw [hv] at hmem
    rw [List.mem_singleton.1 hmem]
    exact hw.heads cls t i
  | log =>
    refine Client.Words.postLog ?_ _
    exact ⟨hw.heads, hw.outstanding⟩
  | commit _ hbase h =>
    rcases hbase with ⟨hph, rfl⟩ | ⟨hwon, rfl⟩
    · exact h.words hw fun cts hc => hcts cts (.inl (hph ▸ hc))
    · exact h.words ⟨hw.heads, hw.outstanding⟩ fun cts hc => hcts cts (.inl (hwon.buildCts ▸ hc))
  | insert hph =>
    exact NewOrderTransaction.words_installStep hw (hcts _ (.inl (by rw [hph]; rfl)))
  | register h =>
    refine hnone rfl rfl fun q hq => ?_
    rw [List.mem_singleton.1 hq]
    cases h <;> rfl
  | publish =>
    refine hnone rfl rfl fun q hq => ?_
    rw [List.mem_singleton.1 hq]
    rfl

theorem ClientStep.words (h : ClientStep cfg vec c cl cl' o l) (hw : cl.Words P)
    (hcts : ∀ cts, cl.phase.buildCts = some cts ∨ l = .acquire cts → Builds P c cts) :
    cl'.Words P := by
  obtain ⟨n, m, trx, -, hstretch⟩ := h.stretch
  exact hstretch.words ⟨hw.heads, hw.outstanding⟩ hcts

/-! ### The timestamp words are built with -/

theorem Phase.buildCts_of_status {ph : Phase} {st : Status} (h : ph.status = st)
    (hlocking : st ≠ .locking) (hcommitting : st ≠ .committing) : ph.buildCts = none := by
  subst h
  unfold buildCts
  split <;> first | rfl | exact absurd rfl hlocking | exact absurd rfl hcommitting

theorem Stretch.buildCts_cases (h : Stretch cfg vec c cl trx cl' l)
    (hcts : cl'.phase.buildCts = some cts) : cl.phase.buildCts = some cts ∨ l = .acquire cts := by
  have hnot : ∀ {p : Phase} {st : Status}, p.status = st → st ≠ .locking → st ≠ .committing →
      p.buildCts ≠ some cts := by
    intro p st hst hlocking hcommitting hp
    rw [Phase.buildCts_of_status hst hlocking hcommitting] at hp
    cases hp
  cases h with
  | call _ _ hp => rcases hp with rfl | rfl <;> cases hcts
  | start _ h | read h | snapshot _ _ _ h | giveUp h =>
    exact absurd hcts (hnot h.phase.2.1 nofun nofun)
  | stop _ _ h | abort _ _ h | finish h => exact absurd hcts (hnot h.status nofun nofun)
  | lock h => cases h <;> exact .inr (congrArg CpuLabel.acquire (Option.some.inj hcts))
  | log _ h => exact .inl (h.buildCts ▸ hcts)
  | @commit _ p _ _ _ hbase h =>
    have hp : p.buildCts = some cts := by
      cases h with
      | append => exact hcts
      | newOrder | payment | delivery => cases hcts
    rcases hbase with ⟨hph, -⟩ | ⟨hwon, -⟩
    · exact .inl (hph ▸ hp)
    · exact .inl (hwon.buildCts ▸ hp)
  | register h | publish h => cases h <;> cases hcts
  | insert | finishNewOrder => cases hcts

theorem ClientStep.buildCts_cases (h : ClientStep cfg vec c cl cl' o l)
    (hcts : cl'.phase.buildCts = some cts) : cl.phase.buildCts = some cts ∨ l = .acquire cts := by
  obtain ⟨n, m, trx, -, hstretch⟩ := h.stretch
  exact hstretch.buildCts_cases hcts

/-! ## Work requests taking effect -/

/-- The words in the servers, in the clients and of the versions the records have had satisfy
`P`. -/
structure Words (P : Timestamp → Prop) (s : State) : Prop where
  head : ∀ k, P (s.mem k).head.writeTimestamp
  olderVersions : ∀ k slot, P ((s.mem k).olderVersions slot).writeTimestamp
  versions : ∀ k, ∀ v ∈ s.versions k, P v.writeTimestamp
  clients : ∀ c, (s.clients c).Words P

theorem Client.Words.imp {Q : Timestamp → Prop} (h : cl.Words P) (hPQ : ∀ w, P w → Q w) :
    cl.Words Q :=
  ⟨fun cls t i => hPQ _ (h.heads cls t i), fun wr hwr w hw => hPQ _ (h.outstanding wr hwr w hw)⟩

theorem Words.imp {Q : Timestamp → Prop} (h : Words P s) (hPQ : ∀ w, P w → Q w) : Words Q s :=
  ⟨fun k => hPQ _ (h.head k), fun k slot => hPQ _ (h.olderVersions k slot),
    fun k v hv => hPQ _ (h.versions k v hv), fun c => (h.clients c).imp hPQ⟩

theorem Words.apply_head {v : Verb} (h : Words P s) (hv : ∀ w ∈ v.words, P w) (k : Key) :
    P (v.apply s.mem k).head.writeTimestamp := by
  cases v with
  | compareAndSwap k' oldTS newTS b =>
    simp only [Verb.apply]
    split
    · by_cases hk : k = k'
      · subst hk
        simpa using hv newTS (by simp [Verb.words])
      · simpa [hk] using h.head k
    · exact h.head k
  | fetchAndAdd wID dID =>
    by_cases hk : k = .district wID dID
    · subst hk
      simpa [Verb.apply] using h.head (.district wID dID)
    · simpa [Verb.apply, hk] using h.head k
  | writeTimestamp k' ts =>
    by_cases hk : k = k'
    · subst hk
      simpa [Verb.apply] using hv ts (by simp [Verb.words])
    · simpa [Verb.apply, hk] using h.head k
  | writePointerList k' list | writeOlderVersion k' slot v =>
    by_cases hk : k = k'
    · subst hk
      simpa [Verb.apply] using h.head k
    · simpa [Verb.apply, hk] using h.head k
  | writeHead k' v =>
    by_cases hk : k = k'
    · subst hk
      simpa [Verb.apply] using hv v.writeTimestamp (by simp [Verb.words])
    · simpa [Verb.apply, hk] using h.head k
  | _ => exact h.head k

theorem Words.apply_olderVersions {v : Verb} (h : Words P s) (hv : ∀ w ∈ v.words, P w) (k : Key)
    (slot : ℕ) : P ((v.apply s.mem k).olderVersions slot).writeTimestamp := by
  cases v with
  | compareAndSwap k' oldTS newTS b =>
    simp only [Verb.apply]
    split
    · by_cases hk : k = k'
      · subst hk
        simpa using h.olderVersions k slot
      · simpa [hk] using h.olderVersions k slot
    · exact h.olderVersions k slot
  | fetchAndAdd wID dID =>
    by_cases hk : k = .district wID dID
    · subst hk
      simpa [Verb.apply] using h.olderVersions (.district wID dID) slot
    · simpa [Verb.apply, hk] using h.olderVersions k slot
  | writeTimestamp k' | writePointerList k' | writeHead k' =>
    by_cases hk : k = k'
    · subst hk
      simpa [Verb.apply] using h.olderVersions k slot
    · simpa [Verb.apply, hk] using h.olderVersions k slot
  | writeOlderVersion k' slot' v =>
    by_cases hk : k = k'
    · subst hk
      by_cases hslot : slot = slot'
      · subst hslot
        simpa [Verb.apply] using hv v.writeTimestamp (by simp [Verb.words])
      · simpa [Verb.apply, hslot] using h.olderVersions k slot
    · simpa [Verb.apply, hk] using h.olderVersions k slot
  | _ => exact h.olderVersions k slot

/-- A verb leaves words it found at a server in the buffers of its client. -/
theorem Words.landLocal {v : Verb} {m : LocalMemory} (h : Words P s)
    (hm : ∀ t i, P (m.head t i).writeTimestamp) (t : Table) (n : ℕ) :
    P ((s.landLocal v m).head t n).writeTimestamp := by
  cases v with
  | readHead k buf => exact LocalMemory.setHead_words hm (h.head k) t n
  | readOlderVersion k slot => exact LocalMemory.setHead_words hm (h.olderVersions k slot) t n
  | readVersion k ts =>
    simp only [State.landLocal]
    split
    · rename_i u hu
      exact LocalMemory.setHead_words hm (h.versions k u (List.mem_of_find?_eq_some hu)) t n
    · exact hm t n
  | readOrderLines serverNum tableIndex count =>
    by_cases ht : t = .orderLine
    · subst ht
      simp only [State.landLocal, Function.update_self]
      split
      · exact h.head _
      · exact hm _ n
    · simpa [State.landLocal, ht] using hm t n
  | fetchAndAdd wID dID =>
    refine LocalMemory.setHead_words hm ?_ t n
    exact hm .district 0
  | _ => exact hm t n

theorem Words.effect (h : Words P s) (hwr : wr ∈ (s.clients c).outstanding) :
    Words P (s.effect c i wr answer) where
  head := h.apply_head ((h.clients c).outstanding wr hwr)
  olderVersions := h.apply_olderVersions ((h.clients c).outstanding wr hwr)
  versions := by
    intro k u hu
    by_cases hv : ∃ v, wr.verb = .writeHead k v
    · obtain ⟨v, hv⟩ := hv
      rw [State.versions_effect_writeHead hv, List.mem_cons] at hu
      rcases hu with rfl | hu
      · exact (h.clients c).outstanding wr hwr _ (by simp [hv, Verb.words])
      · exact h.versions k u hu
    · rw [State.versions_effect_of_ne fun v h => hv ⟨v, h⟩] at hu
      exact h.versions k u hu
  clients := by
    intro c'
    by_cases hc : c' = c
    · subst hc
      rw [State.effect_clients_self]
      refine ⟨fun cls t n => ?_, fun wr' hwr' => ?_⟩
      · by_cases hcls : cls = wr.owner.trx.cls
        · subst hcls
          simpa [Client.complete, State.land] using h.landLocal ((h.clients c').heads _) t n
        · simpa [Client.complete, State.land, hcls] using (h.clients c').heads cls t n
      · exact (h.clients c').outstanding wr' (List.mem_of_mem_eraseIdx hwr')
    · rw [State.effect_clients_of_ne hc]
      exact h.clients c'

/-! ## Runs -/

/-- The word is that of the populated versions, or names a transaction that has acquired its
commit timestamp. -/
def Dated (s : State) (w : Timestamp) : Prop :=
  w.writer = (0, 0) ∨ ∃ o, HasAcquired s w.clientID o w.timestamp

theorem Dated.mono {w : Timestamp} (h : Dated s w) (htrace : s.trace ⊆ s'.trace) : Dated s' w :=
  h.imp_right fun ⟨o, ho⟩ => ⟨o, htrace ho⟩

theorem HasAcquired.builds (h : HasAcquired s c o cts) : Builds (Dated s) c cts :=
  fun _ _ _ => .inr ⟨o, h⟩

/-- The invariant of a run: all words are dated, and so are those the clients are building. -/
structure AllDated (s : State) : Prop where
  words : Words (Dated s) s
  building : ∀ c cts, (s.clients c).phase.buildCts = some cts → ∃ o, HasAcquired s c o cts

theorem Init.dated (h : Init cfg s) : AllDated s where
  words := by
    have hempty : Dated s .empty := .inl rfl
    have hhead : ∀ k, Dated s (s.populated k).head.writeTimestamp := by
      intro k
      rw [(h.records k).head]
      split
      · exact .inl rfl
      · exact hempty
    refine ⟨fun k => by rw [h.mem]; exact hhead k, fun k slot => ?_, fun k v hv => ?_, fun c => ?_⟩
    · rw [h.mem, (h.records k).olderVersions]
      exact hempty
    · rw [h.versions, List.mem_singleton, h.mem] at hv
      rw [hv]
      exact hhead k
    · refine ⟨fun cls t n => ?_, by simp [(h.clients c).outstanding]⟩
      rw [(h.clients c).head]
      exact hempty
  building := by
    intro c cts hcts
    rw [(h.clients c).phase] at hcts
    cases hcts

theorem AllDated.setClient (h : AllDated s) (hstep : ClientStep cfg vec c (s.clients c) cl o l) :
    AllDated (s.setClient c cl o l) := by
  have htrace : s.trace ⊆ (s.setClient c cl o l).trace := List.subset_cons_self _ _
  have hacq : ∀ cts, (s.clients c).phase.buildCts = some cts ∨ l = .acquire cts →
      ∃ o', HasAcquired (s.setClient c cl o l) c o' cts := by
    rintro cts (hcts | rfl)
    · obtain ⟨o', ho⟩ := h.building c cts hcts
      exact ⟨o', htrace ho⟩
    · exact ⟨o, List.mem_cons_self⟩
  have hwords := h.words.imp fun w hw => hw.mono htrace
  refine ⟨⟨hwords.head, hwords.olderVersions, hwords.versions, fun c' => ?_⟩, fun c' cts hcts => ?_⟩
  · by_cases hc : c' = c
    · subst hc
      rw [State.setClient_clients_self]
      refine hstep.words (hwords.clients c') fun cts hcts => ?_
      obtain ⟨o, ho⟩ := hacq cts hcts
      exact ho.builds
    · rw [State.setClient_clients_of_ne hc]
      exact hwords.clients c'
  · by_cases hc : c' = c
    · subst hc
      rw [State.setClient_clients_self] at hcts
      exact hacq cts (hstep.buildCts_cases hcts)
    · rw [State.setClient_clients_of_ne hc] at hcts
      obtain ⟨o, ho⟩ := h.building c' cts hcts
      exact ⟨o, htrace ho⟩

theorem AllDated.effect (h : AllDated s) (hwr : wr ∈ (s.clients c).outstanding) :
    AllDated (s.effect c i wr answer) := by
  have htrace : s.trace ⊆ (s.effect c i wr answer).trace := List.subset_cons_self _ _
  refine ⟨(h.words.effect hwr).imp fun w hw => hw.mono htrace, fun c' cts hcts => ?_⟩
  rw [State.effect_phase] at hcts
  obtain ⟨o, ho⟩ := h.building c' cts hcts
  exact ⟨o, htrace ho⟩

theorem AllDated.readOracle (h : AllDated s) : AllDated (s.readOracle g) := by
  have htrace : s.trace ⊆ (s.readOracle g).trace := List.subset_cons_self _ _
  have hwords := h.words.imp fun w hw => hw.mono htrace
  refine ⟨⟨hwords.head, hwords.olderVersions, hwords.versions, hwords.clients⟩,
    fun c cts hcts => ?_⟩
  obtain ⟨o, ho⟩ := h.building c cts hcts
  exact ⟨o, htrace ho⟩

/-- **All words are dated** in every reachable state. -/
theorem dated_of_reachable (h : Reachable cfg s) : AllDated s := by
  induction h with
  | start hs => exact hs.dated
  | next hs _ ha ih =>
    rcases step_cases ha with ⟨c, vec, cl, o, l, -, hstep, rfl⟩ | ⟨c, i, wr, answer, -, ho, rfl⟩ |
      ⟨g, -, rfl⟩
    · exact ih.setClient hstep
    · exact ih.effect (List.mem_of_getElem? ho.getElem)
    · exact ih.readOracle

end RdmaSnapshot
