import RdmaSnapshot.Publication
import RdmaSnapshot.Populate

/-!
# Aborts leave no trace

The transactions take turns in writing the word in front of a versioned record: one of them swaps
the word it found for its own lock word, and the next write to the word is its own again, when it
puts the word back or installs a version. A transaction that aborts installs nothing, so each word
it swapped was put back before anybody else wrote it.
-/

namespace RdmaSnapshot

variable {cfg : Config} {s s' : State} {c c' : ClientID} {cl : Client} {o : Owner} {k : Key}
  {i n : ℕ} {wr : WorkRequest} {answer : IndexAnswer} {t : Ticket} {stage : Stage}
  {oldTS newTS : Timestamp} {b : ℕ}

/-- The event wrote the word in front of record `k`: a CAS that swapped, a WRITE of the word, or a
WRITE of a version. -/
def Event.writesWord (k : Key) : Event → Bool
  | .effect _ ⟨_, .compareAndSwap k' oldTS _ _, _⟩ (.word existing) => k' = k ∧ existing = oldTS
  | .effect _ ⟨_, .writeTimestamp k' _, _⟩ _ => k' = k
  | .effect _ ⟨_, .writeHead k' _, _⟩ _ => k' = k
  | _ => false

/-- The writes to the word in front of record `k`, newest first. -/
def State.wordWrites (s : State) (k : Key) : List Event := s.trace.filter (Event.writesWord k)

/-- The writes to a word, newest first, when the transactions take turns: each swaps the word it
found for its own, and then puts it back or installs a version. The option is the transaction whose
turn it is, with the word it found. -/
inductive Turns (k : Key) : List Event → Option (Ticket × Timestamp) → Prop
  | nil : Turns k [] none
  | lock {log : List Event} {c : ClientID} {o : Owner} {oldTS newTS : Timestamp} {b : ℕ}
      {signaled : Bool} (h : Turns k log none) :
      Turns k (.effect c ⟨o, .compareAndSwap k oldTS newTS b, signaled⟩ (.word oldTS) :: log)
        (some (⟨c, o, newTS⟩, oldTS))
  | revert {log : List Event} {t : Ticket} {oldTS : Timestamp} {signaled : Bool} {reply : Reply}
      (h : Turns k log (some (t, oldTS))) :
      Turns k (.effect t.client ⟨t.owner, .writeTimestamp k oldTS, signaled⟩ reply :: log) none
  | install {log : List Event} {t : Ticket} {oldTS : Timestamp} {v : Version (Row k.table)}
      {signaled : Bool} {reply : Reply} (h : Turns k log (some (t, oldTS))) :
      Turns k (.effect t.client ⟨t.owner, .writeHead k v, signaled⟩ reply :: log) none

def State.turn (s : State) (k : Key) : Option (Ticket × Timestamp) :=
  (s.holder k).map fun p => (p.1, (s.current k).writeTimestamp)

/-! ## Writes to the word -/

theorem State.wordWrites_effect : (s.effect c i wr answer).wordWrites k =
    if Event.writesWord k (.effect c wr (wr.verb.reply s.mem)) then
      .effect c wr (wr.verb.reply s.mem) :: s.wordWrites k
    else s.wordWrites k := by
  rw [wordWrites, effect_trace, List.filter_cons]
  rfl

theorem Event.writesWord_of_not_mutates (h : wr.verb.mutates k = false) (reply : Reply) :
    Event.writesWord k (.effect c wr reply) = false := by
  obtain ⟨o, verb, signaled⟩ := wr
  cases verb with
  | compareAndSwap k' =>
    have hk : k' ≠ k := of_decide_eq_false h
    cases reply <;> simp [writesWord, hk]
  | writeTimestamp k' | writeHead k' => exact h
  | _ => rfl

theorem RecordStep.turns (h : RecordStep cfg s c wr k) (hrec : RecordOK cfg s k)
    (hturns : Turns k (s.wordWrites k) (s.turn k)) :
    Turns k ((s.effect c i wr answer).wordWrites k) ((s.effect c i wr answer).turn k) := by
  obtain ⟨o, verb, signaled⟩ := wr
  rw [State.wordWrites_effect, State.turn]
  rw [State.turn] at hturns
  cases h with
  | other hv =>
    have hne : ∀ v, verb ≠ .writeHead k v := by
      rintro v rfl
      simp [Verb.mutates] at hv
    rw [State.holder_effect_of_not_mutates hv, State.current_effect_of_ne hne,
      Event.writesWord_of_not_mutates hv]
    exact hturns
  | @refused oldTS newTS b hv hw =>
    cases hv
    rw [State.holder_effect_noSwap rfl hw, State.current_effect_of_ne (by simp)]
    simpa [Event.writesWord, Verb.reply, hw] using hturns
  | @acquired cts b hv hfree =>
    cases hv
    have hw : (s.mem k).head.writeTimestamp = (s.current k).writeTimestamp :=
      (hrec.head_of_free hfree).1
    rw [State.holder_effect_swap rfl hw, State.current_effect_of_ne (by simp)]
    rw [hfree] at hturns
    simp only [Event.writesWord, Verb.reply, hw, and_self, decide_true, if_true, Option.map_some]
    exact .lock hturns
  | @reverted t hv hh ht ho =>
    cases hv
    subst ht ho
    rw [State.holder_effect_writeTimestamp rfl]
    rw [hh] at hturns
    simp only [Event.writesWord, decide_true, if_true, Option.map_none]
    exact .revert hturns
  | @pushed t list hv hh ht ho =>
    cases hv
    rw [State.holder_effect_writePointerList rfl, State.current_effect_of_ne (by simp), hh]
    rw [hh] at hturns
    exact hturns
  | @saved t x hv hh ht ho =>
    cases hv
    rw [State.holder_effect_writeOlderVersion rfl, State.current_effect_of_ne (by simp), hh]
    rw [hh] at hturns
    exact hturns
  | @installed t y v hv hh ht ho =>
    cases hv
    subst ht ho
    rw [State.holder_effect_writeHead rfl]
    rw [hh] at hturns
    simp only [Event.writesWord, decide_true, if_true, Option.map_none]
    exact .install hturns

/-- **The transactions take turns** in writing the word of a versioned record, in every reachable
state in which no commit timestamp has wrapped. -/
theorem turns_of_reachable (h : Reachable cfg s) (hwrap : NoWrap cfg s)
    (hk : k.versioned = true) : Turns k (s.wordWrites k) (s.turn k) := by
  induction h with
  | start hs =>
    rw [State.wordWrites, hs.trace, State.turn, hs.holder]
    exact .nil
  | next hs _ ha ih =>
    have hwrap' := hwrap.of_step ha
    have hinv := inv_of_reachable hs hwrap'
    rcases step_cases ha with ⟨c, vec, cl, o, l, -, -, rfl⟩ | ⟨c, i, wr, answer, -, ho, rfl⟩ |
      ⟨g, -, rfl⟩
    · exact ih hwrap'
    · exact (hinv.recordStep ho hk).turns (hinv.records k hk) (ih hwrap')
    · exact ih hwrap'

/-! ## One turn -/

namespace Turns

variable {log newer older : List Event} {m : Option (Ticket × Timestamp)} {signaled : Bool}
  {reply : Reply}

/-- Whose turn it is wrote last. -/
theorem exists_lock (h : Turns k log (some (t, oldTS))) : ∃ b signaled older,
    log = .effect t.client ⟨t.owner, .compareAndSwap k oldTS t.word b, signaled⟩ (.word oldTS) ::
      older := by
  cases h
  exact ⟨_, _, _, rfl⟩

theorem next_of_lock (h : Turns k log m)
    (hlog : log = newer ++ .effect c ⟨o, .compareAndSwap k oldTS newTS b, signaled⟩ reply ::
      older) :
    (newer = [] ∧ m = some (⟨c, o, newTS⟩, oldTS)) ∨ ∃ newer' verb signaled' reply',
      newer = newer' ++ [.effect c ⟨o, verb, signaled'⟩ reply'] ∧
        (verb = .writeTimestamp k oldTS ∨ ∃ v, verb = .writeHead k v) := by
  induction h generalizing newer with
  | nil => simp at hlog
  | lock h ih =>
    rcases newer with _ | ⟨e, newer⟩
    · cases hlog
      exact .inl ⟨rfl, rfl⟩
    · obtain ⟨-, hrest⟩ := List.cons.inj hlog
      obtain ⟨-, hm⟩ | ⟨newer', verb, signaled', reply', rfl, hverb⟩ := ih hrest
      · cases hm
      · exact .inr ⟨e :: newer', verb, signaled', reply', rfl, hverb⟩
  | revert h ih | install h ih =>
    rcases newer with _ | ⟨e, newer⟩
    · cases hlog
    · obtain ⟨rfl, hrest⟩ := List.cons.inj hlog
      obtain ⟨rfl, hm⟩ | ⟨newer', verb, signaled', reply', rfl, hverb⟩ := ih hrest
      · cases hm
        exact .inr ⟨[], _, _, _, rfl, by simp⟩
      · exact .inr ⟨_ :: newer', verb, signaled', reply', rfl, hverb⟩

/-- The last write before a word is put back is the CAS that found it. -/
theorem lock_of_revert (h : Turns k log m)
    (hlog : log = newer ++ .effect c ⟨o, .writeTimestamp k oldTS, signaled⟩ reply :: older) :
    ∃ newTS b signaled' older', older =
      .effect c ⟨o, .compareAndSwap k oldTS newTS b, signaled'⟩ (.word oldTS) :: older' := by
  induction h generalizing newer with
  | nil => simp at hlog
  | lock h ih | install h ih =>
    rcases newer with _ | ⟨e, newer⟩
    · cases hlog
    · exact ih (List.cons.inj hlog).2
  | revert h ih =>
    rcases newer with _ | ⟨e, newer⟩
    · cases hlog
      obtain ⟨b, signaled', older', rfl⟩ := h.exists_lock
      exact ⟨_, b, signaled', older', rfl⟩
    · exact ih (List.cons.inj hlog).2

end Turns

/-! ## Aborts -/

/-- Transaction number `n` of client `c` has had no net effect on the versioned records. -/
structure NoTrace (s : State) (c : ClientID) (n : ℕ) : Prop where
  /-- After a CAS that swapped, the next write to the word puts back what the CAS replaced. -/
  restored : ∀ k, k.versioned = true → ∀ newer older o oldTS newTS b signaled, o.t = n →
    s.wordWrites k =
      newer ++ .effect c ⟨o, .compareAndSwap k oldTS newTS b, signaled⟩ (.word oldTS) :: older →
    ∃ newer' signaled' reply,
      newer = newer' ++ [.effect c ⟨o, .writeTimestamp k oldTS, signaled'⟩ reply]
  /-- Before a word is put back, the last write to it is the CAS that replaced it. -/
  own : ∀ k, k.versioned = true → ∀ newer older o ts signaled reply, o.t = n →
    s.wordWrites k = newer ++ .effect c ⟨o, .writeTimestamp k ts, signaled⟩ reply :: older →
    ∃ newTS b signaled' older', older =
      .effect c ⟨o, .compareAndSwap k ts newTS b, signaled'⟩ (.word ts) :: older'
  /-- Nothing of it is on its way. -/
  gone : ∀ wr ∈ (s.clients c).outstanding, wr.owner.t ≠ n
  /-- It wrote no version, pointer list, ring, counter or log, registered nothing with the index and
  did not write to the oracle's vector. -/
  harmless : ∀ wr reply, Event.effect c wr reply ∈ s.trace → wr.owner.t = n →
    wr.verb.kind ≠ .commit

theorem Client.quiet_of_over (h : cl.phase.status = .idle ∨ cl.phase.isPublish = true) :
    cl.phase.writeSet cfg = [] ∧ cl.plan cfg c = [] := by
  unfold plan
  cases hph : cl.phase with
  | idle => exact ⟨rfl, rfl⟩
  | newOrder cart pc | payment cart pc | delivery cart dID pc =>
    rw [hph] at h
    cases pc <;> first | exact ⟨rfl, rfl⟩ | simp [Phase.status, Phase.isPublish] at h

theorem Client.owner_of_mem_plan {p : Owner × Verb} (h : p ∈ cl.plan cfg c) : p.1.t = cl.t := by
  unfold plan at h
  split at h <;> first | cases h; done | rw [(mem_tagged.1 h).1]

/-- A client that holds a record is to write it. -/
theorem Conforms.exists_mem {cur : Version (Row k.table)} {ops : List (Owner × Verb)}
    (h : Conforms cfg k cur (some (t, stage)) ops) : ∃ v, (t.owner, v) ∈ ops := by
  cases h <;> exact ⟨_, List.mem_cons_self⟩

theorem ClientOK.not_holder (h : ClientOK cfg s c cl) (hk : k.versioned = true)
    (hover : n = cl.t → cl.phase.status = .idle ∨ cl.phase.isPublish = true)
    (hgone : ∀ wr ∈ cl.outstanding, wr.owner.t = n → wr.verb.mutates k = false)
    (hmine : s.mine c k = some (t, stage)) : t.owner.t ≠ n := by
  intro ht
  by_cases hw : k ∈ (cl.phase.writeSet cfg).map Prod.fst
  · obtain ⟨⟨k, b⟩, hp, rfl⟩ := List.mem_map.1 hw
    obtain ⟨trx, htrx⟩ := Phase.exists_trx (Phase.ne_idle_of_mem_writeSet hp)
    cases h.locking trx htrx _ hp with
    | pending _ hnone => simp [hnone] at hmine
    | refused _ _ hnone => simp [hnone] at hmine
    | acquired _ _ hself =>
      rw [hself] at hmine
      cases hmine
      rw [(Client.quiet_of_over (c := c) (hover ht.symm)).1] at hp
      cases hp
  · have hconf := h.conforms k hk hw
    rw [hmine] at hconf
    obtain ⟨v, hv⟩ := hconf.exists_mem
    rcases List.mem_append.1 hv with hv | hv
    · rw [Client.ops_eq_map_filter] at hv
      obtain ⟨wr, hwr, heq⟩ := List.mem_map.1 hv
      obtain ⟨hwr, hm⟩ := List.mem_filter.1 hwr
      simp [hgone wr hwr (by rw [(Prod.mk.inj heq).1, ht])] at hm
    · have hplan := (List.mem_filter.1 hv).1
      have hcur := hover (ht.symm.trans (Client.owner_of_mem_plan hplan))
      rw [(Client.quiet_of_over hcur).2] at hplan
      cases hplan

/-- **Aborts leave no trace.** In every reachable state in which no commit timestamp has wrapped, a
transaction that aborted has restored every word of a versioned record it swapped, before anybody
else wrote it, and has changed nothing else. -/
theorem noTrace_of_aborted (h : Reachable cfg s) (hwrap : NoWrap cfg s) (hab : HasAborted s c o) :
    NoTrace s c o.t := by
  obtain ⟨reason, hab⟩ := hab
  have hinv := inv_of_reachable h hwrap
  have hw := ((courses_of_reachable h hwrap).clients c).aborted o reason hab
  refine ⟨?_, ?_, hw.gone, fun wr reply hwr => hw.harmless wr (.inr ⟨reply, hwr⟩)⟩
  · intro k hk newer older o' oldTS newTS b signaled ht hlog
    have hturns := turns_of_reachable h hwrap hk
    rcases hturns.next_of_lock hlog with ⟨-, hm⟩ |
      ⟨newer', verb, signaled', reply, rfl, rfl | ⟨v, rfl⟩⟩
    · -- the record is still held
      obtain ⟨⟨t, stage⟩, hh, heq⟩ := Option.map_eq_some_iff.1 hm
      obtain rfl : t = ⟨c, o', newTS⟩ := (Prod.mk.inj heq).1
      have hmine : s.mine c k = some (⟨c, o', newTS⟩, stage) := State.mine_eq_some.2 ⟨hh, rfl⟩
      refine absurd ht ((hinv.clients c).not_holder hk (fun heq => .inl (hw.idle heq)) ?_ hmine)
      exact fun wr hwr heq => absurd heq (hw.gone wr hwr)
    · exact ⟨newer', signaled', reply, rfl⟩
    · -- a version was installed
      have hmem : Event.effect c ⟨o', .writeHead k v, signaled'⟩ reply ∈ s.wordWrites k := by
        simp [hlog]
      exact absurd rfl (hw.harmless _ (.inr ⟨reply, (List.mem_filter.1 hmem).1⟩) ht)
  · intro k hk newer older o' ts signaled reply _ hlog
    exact (turns_of_reachable h hwrap hk).lock_of_revert hlog

def Event.abortOf (c : ClientID) : Event → Option Owner
  | .cpu c' o (.finish (.ABORTED _)) => if c' = c then some o else none
  | _ => none

theorem Event.abortOf_eq_some {e : Event} (h : e.abortOf c = some o) :
    ∃ reason, e = .cpu c o (.finish (.ABORTED reason)) := by
  unfold abortOf at h
  split at h
  · split at h
    · rename_i hc
      subst hc
      cases h
      exact ⟨_, rfl⟩
    · cases h
  · cases h

/-- Two clients execute NewOrders with the plain cart. Client 1 locks the first stock, client 0 the
other ones, and client 1 gives up. -/
def conflict : List Action :=
  [.readerRead 0, .newOrder 0 plainCart] ++ nics 0 21 .nothing ++ [.newOrder 1 plainCart] ++
    nics 1 21 .nothing ++ [.cpu 0, .cpu 0, .cpu 1, .cpu 1] ++ nics 1 1 .nothing ++
    nics 0 5 .nothing ++ nics 1 4 .nothing ++ [.cpu 1] ++ nics 1 1 .nothing ++ [.cpu 1]

set_option maxRecDepth 100000 in
/-- The first stock is locked by client 1 and put back. -/
theorem noTrace_of_conflict : ∃ s o, Reachable (.shipped 2) s ∧ NoWrap (.shipped 2) s ∧
    HasAborted s 1 o ∧ (s.wordWrites (.stock 0 1)).length = 2 ∧ NoTrace s 1 o.t := by
  obtain ⟨s, h, hwrap, hp⟩ := exists_reachable (init_plain (.shipped 2)) conflict
    (fun s => s.trace.any (fun e => (e.abortOf 1).isSome) &&
      (s.wordWrites (.stock 0 1)).length = 2)
    (by decide +kernel) (by decide +kernel)
  simp only [Bool.and_eq_true, decide_eq_true_eq, List.any_eq_true, Option.isSome_iff_exists] at hp
  obtain ⟨⟨e, he, o, ho⟩, hlen⟩ := hp
  obtain ⟨reason, rfl⟩ := Event.abortOf_eq_some ho
  exact ⟨s, o, h, hwrap, ⟨reason, he⟩, hlen, noTrace_of_aborted h hwrap ⟨reason, he⟩⟩

end RdmaSnapshot
