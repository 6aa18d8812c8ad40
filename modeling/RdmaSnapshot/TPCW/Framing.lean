import RdmaSnapshot.TPCW.Sockets

/-!
# Messages of the socket-based TPC-W managers

A `sock_read` that returns with a part of its struct reports success. As long as that does not
happen, every connection of a session is framed: the order in which each end reads and writes the
messages of a connection is fixed by its loop, so each struct is read where the peer wrote one of
its type. After a short read it is not.
-/

namespace RdmaSnapshot.TPCW.IPoIB

open ByteStream

/-! ## Connections stay in step -/

/-- Where the two histories of a thread's connection stand, by its program counter. -/
def Link.ThreadAt (l : Link) : Prop :=
  match l.pc with
  | .read t => roundAt l.requests.received.length = t ∧ roundAt l.responses.sent.length = t
  | .write t => roundAt l.requests.received.length = t.next ∧ roundAt l.responses.sent.length = t

/-- The requests and responses of the two histories, and what was made of them. -/
structure Link.Logs (L : Layout) (l : Link) : Prop where
  asked : l.asked = l.requests.sent.map fun m => L.loadRequest m.kind m.bytes
  handled : l.handled = l.requests.received.map fun m => L.loadRequest m.kind m.bytes
  answered : l.answered = l.responses.sent.map fun m => L.loadResponse m.kind m.bytes
  observed : l.observed = l.responses.received.map fun m => L.loadResponse m.kind m.bytes

/-- Both directions are framed and follow the sequence of exchanges. The transaction manager's next
request is one of exchange `asks`, the next response it reads one of exchange `reads`. -/
structure Link.OK (L : Layout) (asks reads : Round) (l : Link) : Prop where
  requests : Framed L.requestSize roundAt l.requests
  responses : Framed L.responseSize roundAt l.responses
  asks : roundAt l.requests.sent.length = asks
  reads : roundAt l.responses.received.length = reads
  thread : l.ThreadAt
  logs : l.Logs L
  request : ∀ t, (l.res_mng_ctx.request t).length = L.requestSize t ∧
    (l.ctx.request t).length = L.requestSize t
  response : ∀ t, (l.res_mng_ctx.response t).length = L.responseSize t ∧
    (l.ctx.response t).length = L.responseSize t

theorem length_update {size : Round → ℕ} {buffers : Round → List UInt8} {t : Round}
    {buffer : List UInt8} (hbuffer : buffer.length = size t)
    (h : ∀ u, (buffers u).length = size u) (u : Round) :
    (Function.update buffers t buffer u).length = size u := by
  by_cases hu : u = t
  · rw [hu, Function.update_self, hbuffer]
  · rw [Function.update_of_ne hu, h]

namespace Link.OK

variable {L : Layout} {asks reads : Round} {l : Link}

theorem of_init (h : l.Init L) : l.OK L .itemInfo .itemInfo := by
  obtain ⟨hpc, hrequests, hresponses, ⟨hasked, hhandled, hanswered, hobserved⟩, hreq, hresp⟩ := h
  constructor
  case requests => rw [hrequests]; exact .empty
  case responses => rw [hresponses]; exact .empty
  case asks => rw [hrequests]; rfl
  case reads => rw [hresponses]; rfl
  case thread => rw [ThreadAt, hpc, hrequests, hresponses]; exact ⟨rfl, rfl⟩
  case logs =>
    constructor
    case asked => rw [hasked, hrequests]; rfl
    case handled => rw [hhandled, hrequests]; rfl
    case answered => rw [hanswered, hresponses]; rfl
    case observed => rw [hobserved, hresponses]; rfl
  case request => exact hreq
  case response => exact hresp

theorem faithful (h : l.OK L asks reads) : l.Faithful where
  requests := h.requests.isPrefix_sent
  responses := h.responses.isPrefix_sent
  handled := by
    rw [h.logs.handled, h.logs.asked]
    exact h.requests.isPrefix_sent.map _
  observed := by
    rw [h.logs.observed, h.logs.answered]
    exact h.responses.isPrefix_sent.map _

theorem ask {r : Request} (h : l.OK L r.round reads) : (l.ask L r).OK L r.round.next reads := by
  have hbuffer := Layout.length_storeRequest r (h.request r.round).1
  constructor
  case requests => exact h.requests.write h.asks.symm hbuffer
  case responses => exact h.responses
  case asks => simp [Link.ask, Channel.write, roundAt, h.asks]
  case reads => exact h.reads
  case thread => exact h.thread
  case logs =>
    constructor
    case asked =>
      simp [Link.ask, Channel.write, h.logs.asked,
        Layout.loadRequest_storeRequest r (h.request r.round).1]
    case handled => exact h.logs.handled
    case answered => exact h.logs.answered
    case observed => exact h.logs.observed
  case request =>
    exact fun u => ⟨length_update hbuffer (fun t => (h.request t).1) u, (h.request u).2⟩
  case response => exact h.response

theorem observe {t : Round} (h : l.OK L asks t)
    (hread : CanRead l.responses.stream (L.responseSize t) (L.responseSize t)) :
    (l.observe L t (L.responseSize t)).OK L asks t.next := by
  have hne : l.responses.stream ≠ [] :=
    List.ne_nil_of_length_pos (Nat.lt_of_lt_of_le hread.1 hread.2.2)
  have hsize := (h.response t).1
  have hbuffer : (fill (l.res_mng_ctx.response t) l.responses.stream (L.responseSize t)).length =
      L.responseSize t := by
    rw [length_fill hread.2.2 hsize.ge, hsize]
  constructor
  case requests => exact h.requests
  case responses => exact h.responses.read h.reads.symm hsize hne
  case asks => exact h.asks
  case reads => simp [Link.observe, Channel.read, roundAt, h.reads]
  case thread => exact h.thread
  case logs =>
    constructor
    case asked => exact h.logs.asked
    case handled => exact h.logs.handled
    case answered => exact h.logs.answered
    case observed => simp [Link.observe, Channel.read, h.logs.observed]
  case request => exact h.request
  case response =>
    exact fun u => ⟨length_update hbuffer (fun t => (h.response t).1) u, (h.response u).2⟩

theorem handle {t : Round} (h : l.OK L asks reads) (hpc : l.pc = .read t)
    (hread : CanRead l.requests.stream (L.requestSize t) (L.requestSize t)) :
    (l.handle L t (L.requestSize t)).OK L asks reads := by
  have hthread := h.thread
  rw [ThreadAt, hpc] at hthread
  have hne : l.requests.stream ≠ [] :=
    List.ne_nil_of_length_pos (Nat.lt_of_lt_of_le hread.1 hread.2.2)
  have hsize := (h.request t).2
  have hbuffer : (fill (l.ctx.request t) l.requests.stream (L.requestSize t)).length =
      L.requestSize t := by
    rw [length_fill hread.2.2 hsize.ge, hsize]
  constructor
  case requests => exact h.requests.read hthread.1.symm hsize hne
  case responses => exact h.responses
  case asks => exact h.asks
  case reads => exact h.reads
  case thread => simp [ThreadAt, Link.handle, Channel.read, roundAt, hthread]
  case logs =>
    constructor
    case asked => exact h.logs.asked
    case handled => simp [Link.handle, Channel.read, h.logs.handled]
    case answered => exact h.logs.answered
    case observed => exact h.logs.observed
  case request =>
    exact fun u => ⟨(h.request u).1, length_update hbuffer (fun t => (h.request t).2) u⟩
  case response => exact h.response

theorem answer {r : Response} (h : l.OK L asks reads) (hpc : l.pc = .write r.round)
    (hr : L.Fits r) : (l.answer L r).OK L asks reads := by
  have hthread := h.thread
  rw [ThreadAt, hpc] at hthread
  have hbuffer := Layout.length_storeResponse hr (h.response r.round).2
  constructor
  case requests => exact h.requests
  case responses => exact h.responses.write hthread.2.symm hbuffer
  case asks => exact h.asks
  case reads => exact h.reads
  case thread => simp [ThreadAt, Link.answer, Channel.write, roundAt, hthread]
  case logs =>
    constructor
    case asked => exact h.logs.asked
    case handled => exact h.logs.handled
    case answered =>
      simp [Link.answer, Channel.write, h.logs.answered,
        Layout.loadResponse_storeResponse r (h.response r.round).2]
    case observed => exact h.logs.observed
  case request => exact h.request
  case response =>
    exact fun u => ⟨(h.response u).1, length_update hbuffer (fun t => (h.response t).2) u⟩

end Link.OK

/-! ## Sessions stay in step -/

namespace ManagerPC

def asks : ManagerPC → ℕ → Round
  | .write t j, i => if i < j then t.next else t
  | .read t _, _ => t.next
  | _, _ => .itemInfo

def reads : ManagerPC → ℕ → Round
  | .write t _, _ => t
  | .read t j, i => if i < j then t.next else t
  | _, _ => .itemInfo

end ManagerPC

/-- Every connection a manager reads from is framed, and the program counter of the transaction
manager says where its loops over the resource managers are. -/
structure Session.OK (cfg : Config) (s : Session) : Prop where
  commitRequests : Framed (fun _ => cfg.layout.commit_request) (fun _ => ()) s.commitRequests
  commit_request : s.commit_request.length = cfg.layout.commit_request
  links : ∀ i < cfg.SERVER_CNT,
    (s.links i).OK cfg.layout (s.managerPC.asks i) (s.managerPC.reads i)

namespace Session.OK

variable {cfg : Config} {s s' : Session}

theorem of_init (h : Init cfg s) : s.OK cfg where
  commitRequests := by rw [h.commitRequests]; exact .empty
  commit_request := h.commit_request
  links i _ := by rw [h.managerPC]; exact .of_init (h.links i)

theorem faithful (h : s.OK cfg) : s.Faithful cfg where
  commitRequests := h.commitRequests.isPrefix_sent
  links i hi := (h.links i hi).faithful

theorem update_links {pc : ManagerPC} {i : ℕ} {l : Link} (h : s.OK cfg)
    (hi : l.OK cfg.layout (pc.asks i) (pc.reads i))
    (hasks : ∀ j, j ≠ i → pc.asks j = s.managerPC.asks j)
    (hreads : ∀ j, j ≠ i → pc.reads j = s.managerPC.reads j) (j : ℕ) (hj : j < cfg.SERVER_CNT) :
    (Function.update s.links i l j).OK cfg.layout (pc.asks j) (pc.reads j) := by
  by_cases hji : j = i
  · rwa [hji, Function.update_self]
  · rw [Function.update_of_ne hji, hasks j hji, hreads j hji]
    exact h.links j hj

theorem change_pc {pc : ManagerPC} (h : s.OK cfg)
    (hasks : ∀ j < cfg.SERVER_CNT, pc.asks j = s.managerPC.asks j)
    (hreads : ∀ j < cfg.SERVER_CNT, pc.reads j = s.managerPC.reads j) (j : ℕ)
    (hj : j < cfg.SERVER_CNT) : (s.links j).OK cfg.layout (pc.asks j) (pc.reads j) := by
  rw [hasks j hj, hreads j hj]
  exact h.links j hj

theorem managerRead {rc : ℕ} (h : s.OK cfg) (hok : WholeReads cfg s (.managerRead rc))
    (hs : s.managerRead cfg rc = some s') : s'.OK cfg := by
  simp only [Session.managerRead] at hs
  simp only [WholeReads] at hok
  split at hs
  case h_1 hpc =>
    obtain rfl : rc = cfg.layout.commit_request := by simpa [hpc] using hok
    obtain ⟨⟨-, hread⟩, hs⟩ := Option.ite_none_right_eq_some.1 hs
    cases hs
    have hne : s.commitRequests.stream ≠ [] :=
      List.ne_nil_of_length_pos (Nat.lt_of_lt_of_le hread.1 hread.2.2)
    constructor
    case commitRequests => exact h.commitRequests.read rfl h.commit_request hne
    case commit_request =>
      exact (length_fill hread.2.2 h.commit_request.ge).trans h.commit_request
    case links =>
      apply h.change_pc
      · intro j _
        simp [ManagerPC.asks, hpc]
      · intro j _
        simp [ManagerPC.reads, hpc]
  case h_2 t i hpc =>
    obtain rfl : rc = cfg.layout.responseSize t := by simpa [hpc] using hok
    obtain ⟨⟨hi, hread⟩, hs⟩ := Option.ite_none_right_eq_some.1 hs
    cases hs
    have hlink := h.links i hi
    simp only [hpc, ManagerPC.asks, ManagerPC.reads, lt_irrefl, if_false] at hlink
    have hlinks : ∀ j < cfg.SERVER_CNT,
        (Function.update s.links i ((s.links i).observe cfg.layout t (cfg.layout.responseSize t))
          j).OK cfg.layout ((ManagerPC.read t (i + 1)).asks j)
          ((ManagerPC.read t (i + 1)).reads j) := by
      apply h.update_links
      · simpa [ManagerPC.asks, ManagerPC.reads] using hlink.observe hread
      · intro j _
        simp [ManagerPC.asks, hpc]
      · intro j hj
        simp only [ManagerPC.reads, hpc, show j < i + 1 ↔ j < i by omega]
    -- a lock response also sets two flags
    cases t <;> exact ⟨h.commitRequests, h.commit_request, hlinks⟩
  case h_3 => cases hs

theorem manager {commit_timestamp : UInt64} (h : s.OK cfg)
    (hs : s.manager cfg commit_timestamp = some s') : s'.OK cfg := by
  simp only [Session.manager] at hs
  split at hs
  case h_1 => cases hs
  case h_2 t i hpc =>
    split at hs
    · rename_i hi
      cases hs
      have hround : (s.request cfg t i).round = t := by cases t <;> rfl
      have hlink := h.links i hi
      simp only [hpc, ManagerPC.asks, ManagerPC.reads, lt_irrefl, if_false] at hlink
      refine ⟨h.commitRequests, h.commit_request, ?_⟩
      apply h.update_links
      · rw [← hround] at hlink
        simpa [ManagerPC.asks, ManagerPC.reads, hround] using hlink.ask
      · intro j hj
        simp only [ManagerPC.asks, hpc, show j < i + 1 ↔ j < i by omega]
      · intro j _
        simp [ManagerPC.reads, hpc]
    · rename_i hi
      cases hs
      refine ⟨h.commitRequests, h.commit_request, ?_⟩
      apply h.change_pc
      · intro j hj
        simp only [ManagerPC.asks, hpc, show j < i by omega, if_true]
      · intro j _
        simp [ManagerPC.reads, hpc]
  case h_3 t i hpc =>
    split at hs
    · cases hs
    · rename_i hi
      -- whichever exchange ends, the next request and the next response are of the one after it
      have hreads : ∀ j < cfg.SERVER_CNT, s.managerPC.reads j = t.next := by
        intro j hj
        simp only [ManagerPC.reads, hpc, show j < i by omega, if_true]
      have hasks : ∀ j, s.managerPC.asks j = t.next := by
        intro j
        simp only [ManagerPC.asks, hpc]
      cases t
      all_goals
        cases hs
        refine ⟨h.commitRequests, h.commit_request, ?_⟩
        apply h.change_pc
        · intro j _
          rw [hasks]
          simp [ManagerPC.asks, Round.next]
        · intro j hj
          rw [hreads j hj]
          simp [ManagerPC.reads, Round.next]
  case h_4 hpc =>
    cases hs
    refine ⟨h.commitRequests, h.commit_request, ?_⟩
    apply h.change_pc
    · intro j _
      simp [ManagerPC.asks, hpc]
    · intro j _
      simp [ManagerPC.reads, hpc]

theorem clientWrite {commit_request : List UInt8} (h : s.OK cfg)
    (hs : s.clientWrite cfg commit_request = some s') : s'.OK cfg := by
  obtain ⟨⟨-, -, hlength⟩, hs⟩ := Option.ite_none_right_eq_some.1 hs
  cases hs
  exact ⟨h.commitRequests.write rfl hlength, h.commit_request, h.links⟩

theorem clientRead {rc : ℕ} (h : s.OK cfg) (hs : s.clientRead cfg rc = some s') : s'.OK cfg := by
  obtain ⟨-, hs⟩ := Option.ite_none_right_eq_some.1 hs
  cases hs
  exact ⟨h.commitRequests, h.commit_request, h.links⟩

theorem setLink {i : ℕ} {l : Link} (h : s.OK cfg)
    (hl : i < cfg.SERVER_CNT → l.OK cfg.layout (s.managerPC.asks i) (s.managerPC.reads i)) :
    (s.setLink i l).OK cfg := by
  refine ⟨h.commitRequests, h.commit_request, ?_⟩
  intro j hj
  by_cases hji : j = i
  · subst hji
    simpa [Session.setLink] using hl hj
  · simpa [Session.setLink, Function.update_of_ne hji] using h.links j hj

theorem threadRead {i rc : ℕ} (h : s.OK cfg) (hok : WholeReads cfg s (.threadRead i rc))
    (hs : s.threadRead cfg i rc = some s') : s'.OK cfg := by
  simp only [Session.threadRead] at hs
  simp only [WholeReads] at hok
  split at hs
  case h_1 t hpc =>
    obtain rfl : rc = cfg.layout.requestSize t := by simpa [hpc] using hok
    obtain ⟨⟨hi, -, hread⟩, hs⟩ := Option.ite_none_right_eq_some.1 hs
    cases hs
    exact h.setLink fun _ => (h.links i hi).handle hpc hread
  case h_2 => cases hs

theorem threadWrite {i : ℕ} {item_version : List UInt8} {locked : Bool} (h : s.OK cfg)
    (hs : s.threadWrite cfg i item_version locked = some s') : s'.OK cfg := by
  simp only [Session.threadWrite] at hs
  split at hs
  case h_1 => cases hs
  case h_2 t hpc =>
    obtain ⟨⟨hi, hfits⟩, hs⟩ := Option.ite_none_right_eq_some.1 hs
    cases hs
    have hround : ((s.links i).response cfg.layout t item_version locked).round = t := by
      cases t <;> rfl
    exact h.setLink fun _ => (h.links i hi).answer (by rw [hround, hpc]) hfits

theorem step {a : Action} (h : s.OK cfg) (hok : WholeReads cfg s a)
    (hs : step cfg s a = some s') : s'.OK cfg := by
  cases a with
  | clientWrite commit_request => exact h.clientWrite hs
  | clientRead rc => exact h.clientRead hs
  | managerRead rc => exact h.managerRead hok hs
  | manager commit_timestamp => exact h.manager hs
  | threadRead i rc => exact h.threadRead hok hs
  | threadWrite i item_version locked => exact h.threadWrite hs

end Session.OK

/-- In a session in which the managers' reads are never short, every `sock_read` fills its struct
with the next message of the peer, and every request and response is acted on as sent. -/
theorem faithful_of_whole_reads (cfg : Config) {s : Session}
    (h : Transition.ReachableBy (Init cfg) (step cfg) (WholeReads cfg) s) : s.Faithful cfg := by
  have hok : s.OK cfg := by
    refine h.invariant (fun s hs => .of_init hs) ?_
    intro s a s' _ hs hok ha
    exact hs.step hok ha
  exact hok.faithful

/-! ## Runs with and without a short read -/

/-- A client buys three of item seven from the only resource manager, which grants the lock; the
thread's read of the request to install takes `rc` bytes. -/
def purchase (rc : ℕ) : List Action :=
  let item := List.replicate 904 0
  [.clientWrite (encodeLine ⟨7, 3, 0⟩ ++ List.replicate 228 0), .managerRead 240,
    .manager 0, .manager 0, .threadRead 0 4, .threadWrite 0 item true, .managerRead 904,
    .manager 9, .manager 0, .manager 0, .threadRead 0 4, .threadWrite 0 item true, .managerRead 1,
    .manager 0, .manager 0, .threadRead 0 rc]

set_option maxRecDepth 100000 in
theorem faithful_of_whole_reads_purchase :
    ∃ s, Transition.ReachableBy (Init .single) (step .single) (WholeReads .single) s ∧
      (s.links 0).handled = [.itemInfo 7, .lock 7, .writeData (.INSTALL_VERSION ⟨7, 3, 0⟩ 9)] ∧
      s.Faithful .single := by
  obtain ⟨s, hs, hhandled⟩ := Transition.exists_reachableBy (step .single)
    (WholeReads .single) (init_cleared .single) (purchase 24)
    (fun s => (s.links 0).handled =
      [.itemInfo 7, .lock 7, .writeData (.INSTALL_VERSION ⟨7, 3, 0⟩ 9)]) (by decide +kernel)
  exact ⟨s, hs, hhandled, faithful_of_whole_reads .single hs⟩

set_option maxRecDepth 100000 in
/-- The thread's read of the request to install returns with its type only. `sock_read` reports
success, and the thread installs the line its cleared buffer happens to hold. -/
theorem exists_not_faithful :
    ∃ s, Transition.Reachable (Init .single) (step .single) s ∧
      (s.links 0).asked = [.itemInfo 7, .lock 7, .writeData (.INSTALL_VERSION ⟨7, 3, 0⟩ 9)] ∧
      (s.links 0).handled = [.itemInfo 7, .lock 7, .writeData (.INSTALL_VERSION ⟨0, 0, 0⟩ 0)] ∧
      ¬s.Faithful .single := by
  obtain ⟨s, hs, hasked, hhandled⟩ := Transition.exists_reachableBy (step .single)
    (fun _ _ => True) (init_cleared .single) (purchase 4)
    (fun s => (s.links 0).asked =
        [.itemInfo 7, .lock 7, .writeData (.INSTALL_VERSION ⟨7, 3, 0⟩ 9)] ∧
      (s.links 0).handled =
        [.itemInfo 7, .lock 7, .writeData (.INSTALL_VERSION ⟨0, 0, 0⟩ 0)]) (by decide +kernel)
  refine ⟨s, hs, hasked, hhandled, ?_⟩
  intro h
  have hfaithful := (h.links 0 Nat.one_pos).handled
  rw [hasked, hhandled] at hfaithful
  revert hfaithful
  decide

end RdmaSnapshot.TPCW.IPoIB
