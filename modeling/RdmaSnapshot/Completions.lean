import RdmaSnapshot.Steps.Batch

/-!
# Completions

A poll loop takes as many completions as signaled requests were counted, and the code that follows
it reads buffers that unsignaled requests were to fill. Both are right for the same reason: on the
queue pair of a request whose result is needed, the newest request of the batch is signaled. This
module states that for one client, without any assumption about the records.
-/

namespace RdmaSnapshot

variable {cfg : Config} {s : State} {c : ClientID} {cl cl' : Client} {trx : Trx}
  {posts posts' : List Post} {i : ℕ} {wr : WorkRequest} {answer : IndexAnswer} {q : QueuePair}

theorem cpu_eq_some {s' : State} (h : step cfg s (.cpu c) = some s') :
    ∃ trx vec, (s.clients c).phase.trx = some trx ∧
      (s.clients c).pollCnt cfg ≤ (s.clients c).sendCQ ∧
      s' = s.setClient c (((s.clients c).poll cfg).resume cfg vec c).1
        ⟨(((s.clients c).poll cfg).resume cfg vec c).1.t, trx⟩
        (((s.clients c).poll cfg).resume cfg vec c).2 := by
  simp only [step, State.cpu] at h
  split at h
  · rename_i trx vec htrx _
    split at h
    · rename_i hpoll
      exact ⟨trx, vec, htrx, hpoll, (Option.some.inj h).symm⟩
    · cases h
  · cases h

/-- The queue pair of every request whose result lands ends with a signaled request. -/
def Covering (cfg : Config) (posts : List Post) : Prop :=
  ∀ p ∈ posts, p.verb.lands = true → EndedOn cfg (p.qp cfg) posts

namespace Client

/-- The completions that have arrived or will arrive are as many as the poll loop takes, and cover
every result that is needed. -/
structure Accounted (cfg : Config) (cl : Client) : Prop where
  count : cl.sendCQ + cl.outstanding.countP (·.signaled) = cl.pollCnt cfg
  /-- The poll loop of the log leaves the counter of `DBExecutor` alone. -/
  log : cl.phase.isLog = true → cl.outstandingSendCompletionCnt = 0
  covered : ∀ wr ∈ cl.outstanding, wr.verb.lands = true →
    Fifo.Ended (·.signaled) (WorkRequest.qp cfg) (wr.qp cfg) cl.outstanding

/-- No completion is to come and no result is to land. Unsignaled WRITEs may be outstanding. -/
structure Rested (cl : Client) : Prop where
  sendCQ : cl.sendCQ = 0
  counted : cl.outstandingSendCompletionCnt = 0
  unsignaled : ∀ wr ∈ cl.outstanding, wr.signaled = false
  landed : ∀ wr ∈ cl.outstanding, wr.verb.lands = false

theorem Rested.countP (h : cl.Rested) : cl.outstanding.countP (·.signaled) = 0 :=
  List.countP_eq_zero.2 fun wr hwr => by simp [h.unsignaled wr hwr]

theorem Rested.congr (h : cl.Rested) (hout : cl'.outstanding = cl.outstanding)
    (hcq : cl'.sendCQ = cl.sendCQ)
    (hcnt : cl'.outstandingSendCompletionCnt = cl.outstandingSendCompletionCnt) : cl'.Rested where
  sendCQ := hcq.trans h.sendCQ
  counted := hcnt.trans h.counted
  unsignaled := hout ▸ h.unsignaled
  landed := hout ▸ h.landed

/-- **End of a poll loop.** All completions were taken, and every result has landed. -/
theorem Accounted.poll (h : cl.Accounted cfg) (hpoll : cl.pollCnt cfg ≤ cl.sendCQ) :
    (cl.poll cfg).Rested := by
  have hcount := h.count
  have hnone : cl.outstanding.countP (·.signaled) = 0 := by omega
  refine ⟨?_, ?_, fun wr hwr => ?_, fun wr hwr => ?_⟩
  · simp only [Client.poll]
    omega
  · simp only [Client.poll]
    split
    · exact h.log ‹_›
    · rfl
  · simpa using List.countP_eq_zero.1 hnone wr hwr
  · -- a result that has not landed would leave a signaled request on its queue pair
    by_contra hlands
    have hlane := Fifo.lane_eq_nil_of_ended (h.covered wr hwr (by simpa using hlands)) hnone
    exact Fifo.lane_eq_nil_iff.1 hlane wr hwr rfl

theorem Accounted.complete (h : cl.Accounted cfg) (ho : cl.Oldest cfg i wr) :
    ((s.land wr answer cl).complete i wr).Accounted cfg where
  count := (Fifo.completed_add_countP _ ho.getElem _).trans h.count
  log := h.log
  covered := fun w hw hl => (h.covered w (List.mem_of_mem_eraseIdx hw) hl).erase ho

theorem Rested.post (h : cl.Rested) (hp : Posted cfg cl cl' trx posts)
    (hcov : Covering cfg posts) : cl'.Accounted cfg where
  count := by
    rw [hp.sendCQ, h.sendCQ, hp.pollCnt, h.counted, hp.outstanding, List.countP_append, h.countP,
      List.countP_map, Nat.zero_add]
    rfl
  log := by
    intro hlog
    have hquiet : cl'.phase.isQuiet = true := by
      unfold Phase.isQuiet
      split <;> first | rfl | exact hlog
    exact (hp.quiet hquiet).trans h.counted
  covered := by
    intro wr hwr hlands
    rw [hp.outstanding, List.mem_append] at hwr
    rw [hp.outstanding]
    rcases hwr with hwr | hwr
    · simp [h.landed wr hwr] at hlands
    · obtain ⟨p, hpmem, rfl⟩ := List.mem_map.1 hwr
      refine Fifo.Ended.append_right (fun hnil => ?_) (Fifo.ended_map (hcov p hpmem hlands))
      exact Fifo.lane_eq_nil_iff.1 hnil _ hwr rfl

theorem Rested.accounted (h : cl.Rested) (hlog : cl.phase.isLog = false) : cl.Accounted cfg where
  count := by simp [h.sendCQ, h.countP, Client.pollCnt, hlog, h.counted]
  log := fun hl => by simp [hlog] at hl
  covered := fun wr hwr hlands => by simp [h.landed wr hwr] at hlands

end Client

/-! ## Batches -/

theorem Posted.congr {base : Client} (h : Posted cfg base cl' trx posts)
    (hout : base.outstanding = cl.outstanding) (ht : base.t = cl.t) (hcq : base.sendCQ = cl.sendCQ)
    (hcnt : base.outstandingSendCompletionCnt = cl.outstandingSendCompletionCnt) :
    Posted cfg cl cl' trx posts where
  phase_trx := h.phase_trx
  t_eq := h.t_eq.trans ht
  outstanding := by rw [h.outstanding, hout, ht]
  sendCQ := h.sendCQ.trans hcq
  pollCnt := by rw [h.pollCnt, hcnt]
  quiet := fun hq => (h.quiet hq).trans hcnt

theorem covering_of_signaled (h : ∀ p ∈ posts, p.signaled = true) : Covering cfg posts :=
  fun _ _ _ => endedOn_of_forall h

theorem covering_concat (posts : List Post) {p : Post} (hsig : p.signaled = true)
    (hqp : ∀ p' ∈ posts, p'.qp cfg = p.qp cfg) : Covering cfg (posts ++ [p]) := by
  intro p' hp' _
  refine endedOn_concat posts hsig ?_
  rcases List.mem_append.1 hp' with hp' | hp'
  · exact (hqp p' hp').symm
  · rw [List.mem_singleton.1 hp']

theorem Covering.append (h : Covering cfg posts) (h' : Covering cfg posts')
    (hq : ∀ p ∈ posts, p.verb.lands = true → EndedOn cfg (p.qp cfg) posts')
    (hq' : ∀ p ∈ posts', p.verb.lands = true → EndedOn cfg (p.qp cfg) posts) :
    Covering cfg (posts ++ posts') := by
  intro p hp hlands
  rcases List.mem_append.1 hp with hp | hp
  · exact (h p hp hlands).append (hq p hp hlands)
  · exact (hq' p hp hlands).append (h' p hp hlands)

/-- The batch at the start of a transaction: the READ of the vector is signaled. -/
theorem Covering.start (h : Covering cfg posts) (hq : ∀ p ∈ posts, p.qp cfg ≠ .oracle) :
    Covering cfg (startPosts cfg ++ posts) := by
  have hstart : ∀ p ∈ startPosts cfg, p.signaled = true := fun p hp => by rw [mem_startPosts hp]
  refine (covering_of_signaled hstart).append h (fun p hp _ => ?_)
    fun p _ _ => endedOn_of_forall hstart
  rw [mem_startPosts hp]
  exact endedOn_of_ne hq

end RdmaSnapshot
