import RdmaSnapshot.Aborts
import RdmaSnapshot.Rows

/-!
# Publication after installation

The poll loop in front of `submitResult` covers all queue pairs a NewOrder or a Delivery writes on.
That of a Payment waits for one completion, of the WRITE of its History row, and so covers the queue
pair to one server only: the one the stale `H_W_ID` of the history buffer names. Whether the
warehouse and the customer are on that server is up to the cart.

A Delivery locks the NewOrder row that the index names, but marks as deleted the first row of its
own client. If these differ, the row it locked stays locked for ever.
-/

namespace RdmaSnapshot

open DeliveryTransaction

variable {cfg : Config} {s s' : State} {c c' : ClientID} {cl cl' : Client} {o o' : Owner}
  {l : CpuLabel} {trx : Trx} {vec : ClientID → UInt32} {cts : UInt32} {k : Key} {i : ℕ}
  {wr : WorkRequest} {answer : IndexAnswer}

def Verb.publishes : Verb → Bool
  | .writeVectorEntry _ _ => true
  | _ => false

/-- The warehouses of the Payment that client `cl` installs are on the server to which it writes its
History row, and the NewOrder row that its Delivery marks as deleted is the one it locked. -/
def Client.Matched (cfg : Config) (c : ClientID) (cl : Client) : Prop :=
  match cl.phase with
  | .payment cart .install =>
    let H_W_ID := ((cl.localMemory .payment).head .history 0).body.H_W_ID
    cfg.getServerNum cart.wID = cfg.getServerNum H_W_ID ∧
      cfg.getServerNum cart.residentWarehouseID = cfg.getServerNum H_W_ID
  | .delivery cart _ .install =>
    newOrderRow cfg cl cart = deletedRow cfg c cart
  | _ => True

instance (cfg : Config) (c : ClientID) (cl : Client) : Decidable (cl.Matched cfg c) := by
  unfold Client.Matched
  split <;> infer_instance

/-- Transactions leave the poll loop of their install WRITEs only in states that match. -/
def Matched (cfg : Config) (s : State) : Action → Prop
  | .cpu c => (s.clients c).Matched cfg c
  | _ => True

instance (cfg : Config) (s : State) : (a : Action) → Decidable (Matched cfg s a)
  | .cpu c => inferInstanceAs (Decidable ((s.clients c).Matched cfg c))
  | .newOrder _ _ | .payment _ _ | .delivery _ _ | .nic _ _ _ | .readerRead _ => isTrue trivial

/-- The transactions of client `c` in state `cl` that publish have nothing else in the queue. -/
structure Flushed (s : State) (c : ClientID) (cl : Client) : Prop where
  last : ∀ wr, HasPosted s c cl wr → wr.verb.publishes = true → wr.owner.t = cl.t →
    cl.phase.status = .idle ∨ cl.phase.isPublish = true
  alone : ∀ wr, HasPosted s c cl wr → wr.verb.publishes = true → ∀ w ∈ cl.outstanding,
    w.owner.t = wr.owner.t → w.verb.publishes = true

/-! ## Steps -/

theorem Publishes.isPublish {p : Phase} {n : ℕ} (h : Publishes cfg cl trx p n) :
    p.isPublish = true := by
  cases h <;> rfl

theorem Flushed.publish {posts : List Post} {new : WorkRequest} (h : Flushed s c cl)
    (hadv : AdvanceBy cfg cl cl' o l posts) (hgone : ∀ wr ∈ cl.outstanding, wr.owner.t ≠ cl.t)
    (hpub : cl'.phase.isPublish = true) (hnew : new.verb.publishes = true)
    (hn : new.owner.t = cl.t) (hout : cl'.outstanding = cl.outstanding ++ [new]) :
    Flushed (s.setClient c cl' o l) c cl' where
  last := fun _ _ _ _ => .inr hpub
  alone := by
    intro wr hwr hp w hw ht
    rw [hout, List.mem_append, List.mem_singleton] at hw
    rcases hw with hw | rfl
    · rcases hadv.hasPosted.1 hwr with hwr | ⟨p, hmem, rfl⟩
      · exact h.alone wr hwr hp w hw ht
      · have hwr' : (⟨o, p.verb, p.signaled⟩ : WorkRequest) ∈ [new] := by
          refine (List.append_cancel_left (hadv.outstanding.symm.trans hout)) ▸ ?_
          exact List.mem_map.2 ⟨p, hmem, rfl⟩
        rw [List.mem_singleton] at hwr'
        rw [hwr', hn] at ht
        exact absurd ht (hgone w hw)
    · exact hnew

theorem Advance.posts_eq_nil {st : Status} {posts : List Post}
    (h : Advance cfg trx st l posts .idle) : posts = [] := by
  cases h <;> rfl

/-- The transaction does not publish in the step; if it has published, it ends. -/
theorem Flushed.keep {posts : List Post} (h : Flushed s c cl)
    (hadv : AdvanceBy cfg cl cl' o l posts) (hcourse : Course cfg s c cl)
    (hnone : ∀ p ∈ posts, p.verb.publishes = false)
    (hend : cl.phase.isPublish = true → cl'.phase.status = .idle) :
    Flushed (s.setClient c cl' o l) c cl' := by
  have hold : ∀ wr, HasPosted (s.setClient c cl' o l) c cl' wr → wr.verb.publishes = true →
      HasPosted s c cl wr := by
    intro wr hwr hp
    rcases hadv.hasPosted.1 hwr with hwr | ⟨p, hmem, rfl⟩
    · exact hwr
    · simp [hnone p hmem] at hp
  have hidle : ∀ wr, HasPosted s c cl wr → wr.verb.publishes = true → wr.owner.t = cl'.t →
      cl'.phase.status = .idle := by
    intro wr hwr hp ht
    obtain ⟨hbegin, ht⟩ := hadv.not_begin (hcourse.number wr hwr) ht
    exact (h.last wr hwr hp ht).elim (fun hst => (hadv.of_idle hbegin hst).2) hend
  refine ⟨fun wr hwr hp ht => .inl (hidle wr (hold wr hwr hp) hp ht), fun wr hwr hp w hw ht => ?_⟩
  have hwr' := hold wr hwr hp
  rw [hadv.outstanding, List.mem_append, List.mem_map] at hw
  rcases hw with hw | ⟨p, hmem, rfl⟩
  · exact h.alone wr hwr' hp w hw ht
  · have hstep := hadv.advance
    rw [hidle wr hwr' hp (ht.symm.trans hadv.owner)] at hstep
    rw [hstep.posts_eq_nil] at hmem
    cases hmem

theorem Flushed.unmoved (h : Flushed s c (s.clients c)) (hu : Unmoved s s' c) :
    Flushed s' c (s'.clients c) where
  last := by
    rw [hu.number, hu.phase]
    exact fun wr hwr => h.last wr (hu.posted wr hwr)
  alone := fun wr hwr hp w hw => h.alone wr (hu.posted wr hwr) hp w (hu.outstanding w hw)

/-- The rows that a Delivery iteration has tried to lock and that it has not posted WRITEs for. Its
commit leaves out the NewOrder row if it marks another row as deleted. -/
def Client.rowsHeld (cfg : Config) (c : ClientID) (cl : Client) : List Key :=
  match cl.phase with
  | .delivery cart _ (.locks _ _) | .delivery cart _ (.log _ _) =>
    (rowSlots cfg cl cart).map Prod.fst
  | .delivery cart _ .install =>
    if newOrderRow cfg cl cart = deletedRow cfg c cart then []
    else [newOrderRow cfg cl cart]
  | _ => []

/-- Transaction `o` of client `c`, which has locked row `k`, is to release it or has given up. -/
inductive RowKept (cfg : Config) (s : State) (c : ClientID) (cl : Client) (o : Owner) (k : Key) :
    Prop
  | held (hex : cl.Executes o) (hk : k ∈ cl.rowsHeld cfg c)
  | written {wr : WorkRequest} (hwr : wr ∈ cl.outstanding) (howner : wr.owner = o)
      {x : Version (Row k.table)} (hv : wr.verb = .writeHead k x)
  | reverting (hex : cl.Executes o) (hst : cl.phase.status = .reverting)
  | aborted (h : HasAborted s c o)

/-- What is locked has a holder, and the holder keeps it. -/
structure RowLock (cfg : Config) (s : State) (k : Key) : Prop where
  locked : (s.mem k).head.writeTimestamp.isLocked = true →
    ∃ t stage, s.holder k = some (t, stage) ∧ (s.mem k).head.writeTimestamp = t.word
  kept : ∀ t stage, s.holder k = some (t, stage) →
    RowKept cfg s t.client (s.clients t.client) t.owner k

theorem Client.phase_of_mem_rowsHeld (h : k ∈ cl.rowsHeld cfg c) :
    (cl.phase.status = .locking ∨ cl.phase.status = .committing) ∧ cl.phase.isPublish = false ∧
      cl.phase.asksIndex = false := by
  unfold rowsHeld at h
  split at h <;>
    first | (cases h; done) | simp [*, Phase.status, Phase.isPublish, Phase.asksIndex]

/-- In the poll loop of its commit a Delivery has posted a WRITE for each row it locked, except
for the NewOrder row if it marks another one as deleted. -/
theorem Client.held_or_written {cart : DeliveryCart} {dID : UInt8}
    (hph : cl.phase = .delivery cart dID .install) (hk : k ∈ (rowSlots cfg cl cart).map Prod.fst) :
    k ∈ cl.rowsHeld cfg c ∨ ∃ x, .writeHead k x ∈ cl.rowVerbs cfg c := by
  have hwritten : ∀ p ∈ slots cfg cl cart (deletedRow cfg c cart),
      ∃ x, .writeHead p.1 x ∈ cl.rowVerbs cfg c := by
    intro p hp
    refine ⟨cl.copy p.1 p.2, ?_⟩
    rw [rowVerbs, hph]
    exact List.mem_map_of_mem hp
  obtain ⟨p, hp, rfl⟩ := List.mem_map.1 hk
  by_cases heq : newOrderRow cfg cl cart = deletedRow cfg c cart
  · rw [rowSlots, heq] at hp
    exact .inr (hwritten p hp)
  · simp only [rowSlots, slots, List.mem_append, List.mem_pair] at hp
    rcases hp with (rfl | rfl) | hp
    · exact .inr (hwritten _ (by simp [slots]))
    · exact .inl (by simp [rowsHeld, hph, heq])
    · exact .inr (hwritten p (List.mem_append_right _ hp))

/-- The CPU goes on with the rows, or gives them up. -/
theorem Stretch.rowsHeld (h : Stretch cfg vec c cl trx cl' l) (hplace : cl.Matched cfg c)
    (hk : k ∈ cl.rowsHeld cfg c) : cl'.phase.status = .reverting ∨ k ∈ cl'.rowsHeld cfg c ∨
      ∃ x, .writeHead k x ∈ cl'.rowVerbs cfg c := by
  have hst := (Client.phase_of_mem_rowsHeld hk).1
  unfold Client.rowsHeld at hk
  cases h with
  | call _ hidle => simp [hidle, Phase.status] at hst
  | start _ h | read h | snapshot _ _ _ h | lock h => simp [h.phase.1] at hst
  | stop hst' | abort hst' => simp [hst'] at hst
  | giveUp h => exact .inl h.phase.2.1
  | log _ h =>
    cases h with
    | newOrder hph | payment hph => simp [hph] at hk
    | delivery hph =>
      rw [hph] at hk
      exact .inr (.inl hk)
  | commit _ hbase h =>
    rcases hbase with ⟨hph, rfl⟩ | ⟨hwon, rfl⟩
    · rw [hph] at hk
      cases h with
      | append | newOrder | payment => cases hk
      | delivery => exact .inr (Client.held_or_written rfl hk)
    · cases hwon with
      | newOrder hph | payment hph => simp [hph] at hk
      | delivery hph =>
        rw [hph] at hk
        cases h
        exact .inr (Client.held_or_written rfl hk)
  | insert hph | finishNewOrder hph => simp [hph] at hk
  | register h =>
    cases h with
    | newOrder hph => simp [hph] at hk
    | delivery hph =>
      -- the condition: the row that was locked is the one that is marked as deleted
      simp only [Client.Matched, hph] at hplace
      simp [hph, hplace] at hk
  | publish h => cases h <;> simp [*] at hk
  | finish _ hph => rcases hph with ⟨_, hph, -⟩ | ⟨_, _, hph, -⟩ <;> simp [hph] at hk

theorem RowKept.advance (h : RowKept cfg s c cl o k) (hstep : ClientStep cfg vec c cl cl' o' l)
    (hrows : RowsOK cfg c cl') (hnil : cl.rowsPending = []) (hk : k.isRow = true)
    (hplace : cl.phase ≠ .idle → cl.Matched cfg c) :
    RowKept cfg (s.setClient c cl' o' l) c cl' o k := by
  obtain ⟨posts, hadv⟩ := hstep.advance
  obtain ⟨n, m, trx, -, hstretch⟩ := hstep.stretch
  cases h with
  | held hex hheld =>
    have hne : cl.phase.status ≠ .idle := by
      rcases (Client.phase_of_mem_rowsHeld hheld).1 with hst | hst <;> simp [hst]
    obtain rfl := hex.unique (hadv.executes_before hstep.trx_of_not_idle hne)
    have hmatched : cl.Matched cfg c := hplace fun hidle => hne (by rw [hidle]; rfl)
    rcases hstretch.rowsHeld hmatched hheld with hst' | hheld' | ⟨x, hx⟩
    · exact .reverting (hadv.executes (by simp [hst'])) hst'
    · refine .held (hadv.executes ?_) hheld'
      rcases (Client.phase_of_mem_rowsHeld hheld').1 with hst' | hst' <;> simp [hst']
    · have hne' : cl'.phase.status ≠ .idle := by
        intro hidle
        rw [Client.rowVerbs_of_status (.inl hidle)] at hx
        cases hx
      rw [← hstep.rowsPending hnil] at hx
      obtain ⟨wr, hwr, hv, hrow⟩ := Client.mem_rowsPending.1 hx
      have hex' := hrows.executes wr hwr (by rw [hv]; exact hrow)
      exact .written hwr (hex'.unique (hadv.executes hne')) hv
  | written hwr _ hv =>
    have hmem := Client.mem_rowsPending.2 ⟨_, hwr, hv, hk⟩
    rw [hnil] at hmem
    cases hmem
  | reverting hex hst =>
    obtain rfl := hex.unique (hadv.executes_before hstep.trx_of_not_idle (by simp [hst]))
    have hadvance := hadv.advance
    rw [hst] at hadvance
    generalize cl'.phase.status = st' at hadvance
    cases hadvance
    exact .aborted ⟨_, List.mem_cons_self⟩
  | aborted h => exact .aborted h.setClient

theorem RowKept.congr (h : RowKept cfg s c cl o k) (htrace : s.trace ⊆ s'.trace)
    (hphase : cl'.phase = cl.phase) (hnumber : cl'.t = cl.t)
    (hindex : cl.phase.asksIndex = false →
      cl'.oldestUndeliveredOrderResp = cl.oldestUndeliveredOrderResp)
    (hout : ∀ wr ∈ cl.outstanding, ∀ x, wr.verb = .writeHead k x → wr ∈ cl'.outstanding) :
    RowKept cfg s' c cl' o k := by
  have hexecutes : cl.Executes o → cl'.Executes o :=
    fun hex => ⟨by rw [hphase, hex.trx], hex.number.trans hnumber.symm⟩
  cases h with
  | held hex hk =>
    have hindex := hindex (Client.phase_of_mem_rowsHeld hk).2.2
    refine .held (hexecutes hex) ?_
    simpa only [Client.rowsHeld, hphase, rowSlots_congr hindex, newOrderRow_congr hindex] using hk
  | written hwr howner hv => exact .written (hout _ hwr _ hv) howner hv
  | reverting hex hst => exact .reverting (hexecutes hex) (hphase ▸ hst)
  | aborted h =>
    obtain ⟨reason, hmem⟩ := h
    exact .aborted ⟨reason, htrace hmem⟩

/-- What a Delivery puts back into a row was accepted, and so is not locked. -/
theorem Vetted.revert (h : Vetted cfg c cl) (hstep : ClientStep cfg vec c cl cl' o l)
    {ts : Timestamp} (hmem : .writeTimestamp k ts ∈ cl'.rowVerbs cfg c) : ts.isLocked = false := by
  rcases Client.of_mem_rowVerbs hmem with ⟨p, hv⟩ | ⟨cart, dID, p, hp, ⟨_, _, -, hv⟩ | ⟨hph, hv, -⟩⟩
  · cases hv
  · cases hv
  cases hv
  cases hstep.rowStep with
  | none h' => simp [hph, Phase.rowCart] at h'
  | lock _ _ _ hlocks => simp [hph, Phase.isLocks] at hlocks
  | commit _ _ _ _ hst' | proceed _ _ _ _ hst' => simp [hph, Phase.status] at hst'
  | giveUp cart' hcart hlocks h' _ hcopy _ hindex =>
    rw [hph] at h'
    cases h'
    obtain ⟨dID', cID, cts, hph'⟩ := Phase.eq_locks hcart hlocks
    rw [rowSlots_congr hindex] at hp
    rw [hcopy]
    refine (BaseTransaction.isRecordAccessible_iff.1
      (h.accepted (by rw [hph']; rfl) (cl.copy p.1 p.2).writeTimestamp ?_)).1
    simp only [rowSlots, slots, List.mem_append, List.mem_pair, List.mem_map] at hp
    simp only [Client.readWords, readWords, Client.copy, Client.buffers, hph']
    rcases hp with (rfl | rfl) | ⟨n, hn, rfl⟩
    · exact List.mem_cons_self
    · exact List.mem_cons_of_mem _ List.mem_cons_self
    · exact List.mem_append_right _ (List.mem_map_of_mem hn)

section

variable (hinv : Inv cfg s) (hrows : RowsOK cfg c (s.clients c))
  (ho : (s.clients c).Oldest cfg i wr)

include hinv ho

theorem RowKept.effect (h : RowKept cfg s c' (s.clients c') o k)
    (hne : ∀ x, wr.verb ≠ .writeHead k x) :
    RowKept cfg (s.effect c i wr answer) c' ((s.effect c i wr answer).clients c') o k := by
  have htrace : s.trace ⊆ (s.effect c i wr answer).trace := List.subset_cons_self _ _
  by_cases hc : c' = c
  · subst hc
    rw [State.effect_clients_self]
    refine h.congr htrace rfl rfl ((hinv.clients c').index_land ho) fun w hw x hv => ?_
    refine ho.mem_eraseIdx hw ?_
    rintro rfl
    exact hne x hv
  · rw [State.effect_clients_of_ne hc]
    exact h.congr htrace rfl rfl (fun _ => rfl) fun _ hw _ _ => hw

theorem RowLock.keep (h : RowLock cfg s k) (hne : ∀ x, wr.verb ≠ .writeHead k x)
    (hholder : (s.effect c i wr answer).holder k = s.holder k)
    (hword : ((s.effect c i wr answer).mem k).head.writeTimestamp = (s.mem k).head.writeTimestamp) :
    RowLock cfg (s.effect c i wr answer) k := by
  refine ⟨by rw [hword, hholder]; exact h.locked, fun t stage hh => ?_⟩
  rw [hholder] at hh
  exact (h.kept t stage hh).effect hinv ho hne

include hrows

theorem RowLock.effect (h : RowLock cfg s k) (hk : k.isRow = true)
    (hrevert : ∀ ts, wr.verb = .writeTimestamp k ts → ts.isLocked = false) :
    RowLock cfg (s.effect c i wr answer) k := by
  have hwr : wr ∈ (s.clients c).outstanding := List.mem_of_getElem? ho.getElem
  by_cases hm : wr.verb.mutates k = true
  swap
  · rw [Bool.not_eq_true] at hm
    refine h.keep hinv ho (fun x hx => ?_) (State.holder_effect_of_not_mutates hm) ?_
    · simp [hx, Verb.mutates] at hm
    · rw [State.effect_mem, Verb.apply_of_not_mutates hm (by rintro _ _ - rfl; cases hk)]
  have hrow : wr.verb.onRow = true := (Verb.onRow_of_mutates hm).trans hk
  rcases Client.of_mem_rowVerbs (hrows.verbs _ (Client.mem_rowsPending.2 ⟨wr, hwr, rfl, hrow⟩)) with
    ⟨p, hv⟩ | ⟨cart, dID, p, hp, ⟨cID, cts, hph, hv⟩ | ⟨hph, hv, -⟩⟩ <;> rw [hv] at hm <;>
    obtain rfl : p.1 = k := of_decide_eq_true hm
  · -- the row is inserted or overwritten
    have hunlocked := (hrows.writes wr hwr p.1 _ hv hk).1
    exact ⟨by simp [hv, Client.writeVerb, Verb.apply, hunlocked],
      by simp [State.holder_effect_writeHead hv]⟩
  · by_cases hw : (s.mem p.1).head.writeTimestamp =
        ((s.clients c).copy p.1 p.2).writeTimestamp
    · refine ⟨fun _ => ⟨_, _, State.holder_effect_swap hv hw, ?_⟩, fun t stage hh => ?_⟩
      · simp [hv, Client.lockVerb, Verb.apply, hw]
      rw [State.holder_effect_swap hv hw] at hh
      cases hh
      refine RowKept.effect hinv ho (.held (hrows.executes wr hwr hrow) ?_)
        (by simp [hv, Client.lockVerb])
      rw [Client.rowsHeld, hph]
      exact List.mem_map_of_mem hp
    · exact h.keep hinv ho (by simp [hv, Client.lockVerb]) (State.holder_effect_noSwap hv hw)
        (by simp [hv, Client.lockVerb, Verb.apply, hw])
  · exact ⟨by simp [hv, Client.revertVerb, Verb.apply, hrevert _ hv],
      by simp [State.holder_effect_writeTimestamp hv]⟩

end

end RdmaSnapshot
