import RdmaSnapshot.Completions
import RdmaSnapshot.Advance
import RdmaSnapshot.Lib.Settled
import Mathlib.Data.List.InsertIdx
import Mathlib.Data.List.Perm.Basic

/-!
# A transaction in isolation

A run in which one client executes one transaction and no other client does anything. The requests
of the client still take effect in any order the queue pairs allow, so the servers' memory at a
moment is not determined; but the memory they settle to is: it is what the requests make of the
initial memory in the order in which they were posted.
-/

namespace RdmaSnapshot

variable {cfg : Config} {s s' s₀ : State} {c : ClientID} {cl base : Client} {k : Key} {o : Owner}
  {l : CpuLabel} {v : Verb} {m : Memory} {trx : Trx} {posts : List Post} {i : ℕ}
  {wr : WorkRequest} {answer : IndexAnswer} {cls : TrxClass} {events : List Event}
  {posted : List Verb}

/-! ## Memory -/

def Verb.touches (k : Key) : Verb → Bool
  | .fetchAndAdd wID dID => k = .district wID dID
  | v => v.mutates k

theorem Verb.apply_of_not_touches (m : Memory) (h : v.touches k = false) : v.apply m k = m k := by
  cases v with
  | fetchAndAdd wID dID =>
    refine apply_of_not_mutates rfl fun w d heq => ?_
    cases heq
    exact of_decide_eq_false h
  | _ => exact apply_of_not_mutates h (by simp)

theorem Verb.apply_congr {m m' : Memory} (v : Verb) (h : m k = m' k) :
    v.apply m k = v.apply m' k := by
  cases ht : v.touches k with
  | false => rw [apply_of_not_touches m ht, apply_of_not_touches m' ht, h]
  | true =>
    cases v with
    | fetchAndAdd | writeTimestamp | writePointerList | writeOlderVersion | writeHead =>
      obtain rfl := of_decide_eq_true ht
      simp [apply, h]
    | compareAndSwap =>
      obtain rfl := of_decide_eq_true ht
      simp only [apply, h]
      split
      · simp
      · exact h
    | _ => cases ht

theorem Verb.qp_of_touches (h : v.touches k = true) : v.qp cfg = .server (cfg.serverOf k) := by
  cases v with
  | fetchAndAdd =>
    obtain rfl := of_decide_eq_true h
    rfl
  | _ => exact qp_of_mutates h

def memoryUpdates (cfg : Config) : Updates Verb Key QueuePair fun k => Record (Row k.table) where
  apply := Verb.apply
  touches := Verb.touches
  lane := Verb.qp cfg
  apply_of_not_touches := Verb.apply_of_not_touches
  apply_congr := Verb.apply_congr
  lane_eq := fun ha hb => (Verb.qp_of_touches ha).trans (Verb.qp_of_touches hb).symm

def settle (cfg : Config) (m : Memory) (vs : List Verb) : Memory := (memoryUpdates cfg).settle m vs

@[simp] theorem settle_nil : settle cfg m [] = m := rfl

theorem settle_cons (v : Verb) (vs : List Verb) :
    settle cfg m (v :: vs) = settle cfg (v.apply m) vs := rfl

theorem settle_append (vs vs' : List Verb) :
    settle cfg m (vs ++ vs') = settle cfg (settle cfg m vs) vs' :=
  (memoryUpdates cfg).settle_append vs'

theorem settle_of_not_touched {vs : List Verb} (h : ∀ v ∈ vs, v.touches k = false) :
    settle cfg m vs k = m k := (memoryUpdates cfg).settle_of_not_touched h

abbrev PlacedRow : Type := (k : Key) × Version (Row k.table)

def writeRow (r : PlacedRow) : Verb := .writeHead r.1 r.2

theorem settle_writeRow {rows : List PlacedRow} (hnodup : (rows.map Sigma.fst).Nodup)
    {r : PlacedRow} (hr : r ∈ rows) :
    settle cfg m (rows.map writeRow) r.1 = { m r.1 with head := r.2 } := by
  induction rows generalizing m with
  | nil => cases hr
  | cons r' rows ih =>
    rw [List.map_cons, List.nodup_cons] at hnodup
    rw [List.map_cons, settle_cons]
    rcases List.mem_cons.1 hr with rfl | hr
    · rw [settle_of_not_touched]
      · simp [writeRow, Verb.apply]
      · intro v hv
        obtain ⟨r', hr', rfl⟩ := List.mem_map.1 hv
        exact decide_eq_false fun heq => hnodup.1 (heq ▸ List.mem_map_of_mem hr')
    · have hne : (writeRow r').touches r.1 = false :=
        decide_eq_false fun heq => hnodup.1 (heq ▸ List.mem_map_of_mem hr)
      rw [ih hnodup.2 hr, Verb.apply_of_not_touches m hne]

theorem Verb.touches_of_read (h : v.kind = .read) (k : Key) : v.touches k = false := by
  cases v <;> first | rfl | cases h

theorem settle_of_reads {vs : List Verb} (h : ∀ v ∈ vs, v.kind = .read) :
    settle cfg m vs = m :=
  funext fun k => settle_of_not_touched fun v hv => Verb.touches_of_read (h v hv) k

def Client.verbs (cl : Client) : List Verb := cl.outstanding.map (·.verb)

theorem Posted.verbs {cl' : Client} (h : Posted cfg cl cl' trx posts) :
    cl'.verbs = cl.verbs ++ posts.map (·.verb) := by
  simp [Client.verbs, h.outstanding, Function.comp_def]

theorem Client.oldest_verbs (h : cl.Oldest cfg i wr) :
    Fifo.Oldest (Verb.qp cfg) cl.verbs i wr.verb where
  getElem := by simp [Client.verbs, h.getElem]
  oldest := by
    intro v hv
    rw [Client.verbs, ← List.map_take] at hv
    obtain ⟨w, hw, rfl⟩ := List.mem_map.1 hv
    exact h.oldest w hw

/-- The memory once the outstanding requests of client `c` have taken effect. -/
def State.settled (cfg : Config) (s : State) (c : ClientID) : Memory :=
  settle cfg s.mem (s.clients c).verbs

theorem Client.verbs_complete :
    ((s.land wr answer cl).complete i wr).verbs = cl.verbs.eraseIdx i := by
  simp [verbs, Client.complete, State.land, List.eraseIdx_map]

theorem State.settled_effect
    (ho : (s.clients c).Oldest cfg i wr) :
    (s.effect c i wr answer).settled cfg c = s.settled cfg c := by
  simp only [State.settled, effect_clients_self, effect_mem, Client.verbs_complete]
  exact (memoryUpdates cfg).settle_eraseIdx (Client.oldest_verbs ho)

theorem State.settled_setClient :
    (s.setClient c cl o l).settled cfg c = settle cfg s.mem cl.verbs := by
  simp [State.settled]

theorem State.settled_of_nil (h : (s.clients c).outstanding = []) : s.settled cfg c = s.mem := by
  simp [State.settled, Client.verbs, h]

/-! ## Runs -/

/-- The actions of a run in which only client `c` acts and the index answers `answer`. The readers
of the oracle's vector are not clients. -/
def Action.isolated (c : ClientID) (answer : IndexAnswer) : Action → Prop
  | .cpu c' => c' = c
  | .nic c' _ answer' => c' = c ∧ answer' = answer
  | .readerRead _ => True
  | _ => False

deriving instance DecidableEq for CustomerNameIndexRespMsg

deriving instance DecidableEq for IndexAnswer

instance (c : ClientID) (answer : IndexAnswer) (a : Action) : Decidable (a.isolated c answer) :=
  match a with
  | .cpu c' => inferInstanceAs (Decidable (c' = c))
  | .nic c' _ answer' => inferInstanceAs (Decidable (c' = c ∧ answer' = answer))
  | .readerRead _ => inferInstanceAs (Decidable True)
  | .newOrder _ _ | .payment _ _ | .delivery _ _ => inferInstanceAs (Decidable False)

abbrev Isolated (cfg : Config) (c : ClientID) (answer : IndexAnswer) (s₁ : State) : State → Prop :=
  Transition.ReachableBy (· = s₁) (step cfg) fun _ a => a.isolated c answer

theorem isolated_cases {a : Action} (hok : a.isolated c answer) (h : step cfg s a = some s') :
    (∃ trx vec, (s.clients c).phase.trx = some trx ∧
      (s.clients c).pollCnt cfg ≤ (s.clients c).sendCQ ∧
      s' = s.setClient c (((s.clients c).poll cfg).resume cfg vec c).1
        ⟨(((s.clients c).poll cfg).resume cfg vec c).1.t, trx⟩
        (((s.clients c).poll cfg).resume cfg vec c).2) ∨
    (∃ i wr, (s.clients c).Oldest cfg i wr ∧
      s' = s.effect c i wr answer) ∨
    ∃ g, s' = s.readOracle g := by
  cases a with
  | newOrder | payment | delivery => exact absurd hok id
  | cpu c' =>
    obtain rfl : c' = c := hok
    exact .inl (cpu_eq_some h)
  | nic c' i answer' =>
    obtain ⟨rfl, rfl⟩ := hok
    obtain ⟨wr, ho, rfl⟩ := nic_eq_some h
    exact .inr (.inl ⟨i, wr, ho, rfl⟩)
  | readerRead g => exact .inr (.inr ⟨g, (Option.some.inj h).symm⟩)

def Event.finishOf (c : ClientID) : Event → Option Outcome
  | .cpu c' _ (.finish outcome) => if c' = c then some outcome else none
  | _ => none

def Event.effectOf (c : ClientID) : Event → Option Verb
  | .effect c' wr _ => if c' = c then some wr.verb else none
  | _ => none

/-- A client executes a transaction of the object `cls`, alone since `s₀`: it has posted the verbs
`posted`, and `events` have happened. -/
structure Underway (cfg : Config) (s₀ : State) (c : ClientID) (cls : TrxClass) (s : State)
    (events : List Event) (posted : List Verb) : Prop where
  trace : s.trace = events ++ s₀.trace
  accounted : (s.clients c).Accounted cfg
  own : ∀ wr ∈ (s.clients c).outstanding, wr.owner.trx.cls = cls
  settled : s.settled cfg c = settle cfg s₀.mem posted
  perm : (events.filterMap (Event.effectOf c) ++ (s.clients c).verbs).Perm posted

theorem Underway.refl (hrest : (s₀.clients c).Rested) (hidle : (s₀.clients c).phase = .idle)
    (hnil : (s₀.clients c).outstanding = []) : Underway cfg s₀ c cls s₀ [] [] where
  trace := rfl
  accounted := hrest.accounted (by rw [hidle]; rfl)
  own := by simp [hnil]
  settled := State.settled_of_nil hnil
  perm := by simp [Client.verbs, hnil]

theorem Underway.effect (h : Underway cfg s₀ c cls s events posted)
    (ho : (s.clients c).Oldest cfg i wr) :
    Underway cfg s₀ c cls (s.effect c i wr answer)
      (.effect c wr (wr.verb.reply s.mem) :: events) posted where
  trace := by simp [h.trace]
  accounted := by
    rw [State.effect_clients_self]
    exact h.accounted.complete ho
  own := by
    rw [State.effect_clients_self]
    exact fun w hw => h.own w (List.mem_of_mem_eraseIdx hw)
  settled := by rw [State.settled_effect ho, h.settled]
  perm := by
    obtain ⟨hi, hv⟩ := List.getElem?_eq_some_iff.1 (Client.oldest_verbs ho).getElem
    have hverbs : (s.clients c).verbs.Perm (wr.verb :: (s.clients c).verbs.eraseIdx i) := by
      rw [← hv]
      exact (List.getElem_cons_eraseIdx_perm hi).symm
    rw [State.effect_clients_self, Client.verbs_complete]
    simp only [Event.effectOf, List.filterMap_cons, if_true]
    refine List.Perm.trans ?_ h.perm
    exact (List.perm_middle.symm.trans (List.Perm.append_left _ hverbs.symm))

theorem Underway.readOracle (h : Underway cfg s₀ c cls s events posted) (g : ℕ) :
    Underway cfg s₀ c cls (s.readOracle g) (.readerRead g :: events) posted where
  trace := by simp [h.trace]
  accounted := h.accounted
  own := h.own
  settled := h.settled
  perm := h.perm

theorem Underway.post (h : Underway cfg s₀ c cls s events posted) {vs : List Verb}
    (hacc : cl.Accounted cfg) (hown : ∀ wr ∈ cl.outstanding, wr.owner.trx.cls = cls)
    (hverbs : cl.verbs = (s.clients c).verbs ++ vs) :
    Underway cfg s₀ c cls (s.setClient c cl o l) (.cpu c o l :: events) (posted ++ vs) where
  trace := by simp [h.trace]
  accounted := by rwa [State.setClient_clients_self]
  own := by rwa [State.setClient_clients_self]
  settled := by
    rw [State.settled_setClient, hverbs, settle_append, settle_append, ← h.settled]
    rfl
  perm := by
    rw [State.setClient_clients_self, hverbs]
    simp only [List.filterMap_cons, Event.effectOf, ← List.append_assoc]
    exact h.perm.append_right vs

theorem Posted.own {cl' : Client} (hp : Posted cfg cl cl' trx posts) (hcls : trx.cls = cls)
    (hown : ∀ wr ∈ cl.outstanding, wr.owner.trx.cls = cls) :
    ∀ wr ∈ cl'.outstanding, wr.owner.trx.cls = cls := by
  intro wr hwr
  rw [hp.outstanding] at hwr
  rcases List.mem_append.1 hwr with hwr | hwr
  · exact hown wr hwr
  · obtain ⟨p, -, rfl⟩ := List.mem_map.1 hwr
    exact hcls

section

variable (h : Underway cfg s₀ c cls s events posted)

include h

theorem Underway.batch {cl' : Client} (hrest : ((s.clients c).poll cfg).Rested)
    (hp : Posted cfg ((s.clients c).poll cfg) cl' trx posts) (hcov : Covering cfg posts)
    (hcls : trx.cls = cls) :
    Underway cfg s₀ c cls (s.setClient c cl' o l) (.cpu c o l :: events)
      (posted ++ posts.map (·.verb)) :=
  h.post (hrest.post hp hcov) (hp.own hcls h.own) hp.verbs

theorem Underway.finish {cl' : Client}
    (hrest : ((s.clients c).poll cfg).Rested) (hout : cl'.outstanding = (s.clients c).outstanding)
    (hcq : cl'.sendCQ = ((s.clients c).poll cfg).sendCQ)
    (hcnt : cl'.outstandingSendCompletionCnt =
      ((s.clients c).poll cfg).outstandingSendCompletionCnt) (hlog : cl'.phase.isLog = false) :
    Underway cfg s₀ c cls (s.setClient c cl' o l) (.cpu c o l :: events) posted := by
  have hacc : cl'.Accounted cfg := (hrest.congr hout hcq hcnt : cl'.Rested).accounted hlog
  have hverbs : cl'.verbs = (s.clients c).verbs ++ [] := by simp [Client.verbs, hout]
  rw [← List.append_nil posted]
  exact h.post hacc (hout ▸ h.own) hverbs

/-- In the end the memory is what the posted verbs make of the initial one. -/
theorem Underway.mem
    (hnil : (s.clients c).outstanding = []) : s.mem = settle cfg s₀.mem posted := by
  rw [← h.settled, State.settled_of_nil hnil]

theorem Underway.mem_posted (hv : v ∈ (s.clients c).verbs) : v ∈ posted :=
  h.perm.subset (List.mem_append_right _ hv)

/-- As long as everything that was posted only reads, the memory is the initial one. -/
theorem Underway.mem_of_reads (hreads : ∀ v ∈ posted, v.kind = .read) : s.mem = s₀.mem := by
  have hsettled := h.settled
  rw [settle_of_reads hreads, State.settled,
    settle_of_reads fun v hv => hreads v (h.mem_posted hv)] at hsettled
  exact hsettled

end

def Verb.storesIn (t : Table) : Verb → Option PlacedRow
  | .writeHead k x => if k.table = t then some ⟨k, x⟩ else none
  | _ => none

theorem Verb.storesIn_eq_none {t : Table} (h : ∀ k : Key, k.table = t → v.touches k = false) :
    v.storesIn t = none := by
  cases v with
  | writeHead k x =>
    refine if_neg fun hk => ?_
    have ht := h k hk
    simp [Verb.touches, Verb.mutates] at ht
  | _ => rfl

def rowsStored (t : Table) (c : ClientID) (events : List Event) : List PlacedRow :=
  (events.filterMap (Event.effectOf c)).filterMap (Verb.storesIn t)

theorem Underway.rowsStored_perm (h : Underway cfg s₀ c cls s events posted)
    (hnil : (s.clients c).outstanding = []) (t : Table) :
    (rowsStored t c events).Perm (posted.filterMap (Verb.storesIn t)) := by
  have hperm := h.perm
  rw [Client.verbs, hnil, List.map_nil, List.append_nil] at hperm
  exact hperm.filterMap _

/-! ## Rows -/

/-- What was posted ends with the WRITEs of `rows`: the verbs before them satisfy `ok`, those after
them change no record. -/
def Installs (rows : List PlacedRow) (ok : Verb → Prop) (posted : List Verb) : Prop :=
  ∃ before after, posted = before ++ rows.map writeRow ++ after ∧ (∀ v ∈ before, ok v) ∧
    ∀ v ∈ after, ∀ k, v.touches k = false

section Installs

variable {rows : List PlacedRow} {ok : Verb → Prop} {r : PlacedRow}

theorem Installs.post (h : Installs rows ok posted) {vs : List Verb}
    (hvs : ∀ v ∈ vs, ∀ k, v.touches k = false) : Installs rows ok (posted ++ vs) := by
  obtain ⟨before, after, rfl, hbefore, hafter⟩ := h
  refine ⟨before, after ++ vs, List.append_assoc _ _ _, hbefore, fun v hv => ?_⟩
  exact (List.mem_append.1 hv).elim (hafter v) (hvs v)

theorem Installs.head (h : Installs rows ok posted) (hnodup : (rows.map Sigma.fst).Nodup)
    (hr : r ∈ rows) :
    ∃ before : List Verb, (∀ v ∈ before, ok v) ∧
      settle cfg m posted r.1 = { settle cfg m before r.1 with head := r.2 } := by
  obtain ⟨before, after, rfl, hbefore, hafter⟩ := h
  refine ⟨before, hbefore, ?_⟩
  rw [settle_append, settle_of_not_touched fun v hv => hafter v hv _, settle_append,
    settle_writeRow hnodup hr]

theorem Installs.record (h : Installs rows ok posted) (hnodup : (rows.map Sigma.fst).Nodup)
    (hr : r ∈ rows) (hok : ∀ v, ok v → v.touches r.1 = false) :
    settle cfg m posted r.1 = { m r.1 with head := r.2 } := by
  obtain ⟨before, hbefore, heq⟩ := h.head hnodup hr
  rw [heq, settle_of_not_touched fun v hv => hok v (hbefore v hv)]

theorem Installs.frame (h : Installs rows ok posted) (hk : k ∉ rows.map Sigma.fst)
    (hok : ∀ v, ok v → v.touches k = false) : settle cfg m posted k = m k := by
  obtain ⟨before, after, rfl, hbefore, hafter⟩ := h
  refine settle_of_not_touched fun v hv => ?_
  rcases List.mem_append.1 hv with hv | hv
  · rcases List.mem_append.1 hv with hv | hv
    · exact hok v (hbefore v hv)
    · obtain ⟨r, hr, rfl⟩ := List.mem_map.1 hv
      exact decide_eq_false fun heq => hk (heq ▸ List.mem_map_of_mem hr)
  · exact hafter v hv k

theorem Underway.rowsStored_of_installs (hunder : Underway cfg s₀ c cls s events posted)
    (hnil : (s.clients c).outstanding = []) (h : Installs rows ok posted) {t : Table}
    (hok : ∀ v, ok v → ∀ k : Key, k.table = t → v.touches k = false) :
    (rowsStored t c events).Perm (rows.filter fun r => r.1.table = t) := by
  have hperm := hunder.rowsStored_perm hnil t
  obtain ⟨before, after, rfl, hbefore, hafter⟩ := h
  have hnone : before.filterMap (Verb.storesIn t) = [] :=
    List.filterMap_eq_nil_iff.2 fun v hv => Verb.storesIn_eq_none (hok v (hbefore v hv))
  have hnone' : after.filterMap (Verb.storesIn t) = [] :=
    List.filterMap_eq_nil_iff.2 fun v hv => Verb.storesIn_eq_none fun k _ => hafter v hv k
  have hrows : (rows.map writeRow).filterMap (Verb.storesIn t) =
      rows.filter fun r => r.1.table = t := by
    rw [List.filterMap_map, ← List.filterMap_eq_filter]
    congr 1
    funext r
    simp [writeRow, Verb.storesIn, Option.guard]
  rwa [List.filterMap_append, List.filterMap_append, hnone, hnone', hrows, List.nil_append,
    List.append_nil] at hperm

end Installs

/-- Client `c` has committed and all its requests have taken effect. -/
def State.committed (s : State) (c : ClientID) : Bool :=
  (match (s.clients c).phase with
    | .idle => true
    | _ => false) &&
  (s.clients c).outstanding.isEmpty && s.trace.any fun e => e.finishOf c = some .COMMITTED

theorem State.committed_iff : s.committed c = true ↔ (s.clients c).phase = .idle ∧
    (s.clients c).outstanding = [] ∧ ∃ e ∈ s.trace, e.finishOf c = some .COMMITTED := by
  simp only [State.committed, Bool.and_eq_true, List.isEmpty_iff, List.any_eq_true,
    decide_eq_true_iff, and_assoc]
  refine and_congr_left' ?_
  split
  · simp [*]
  · rename_i hne
    exact iff_of_false nofun hne

theorem trace_of_isolated {s₁ : State} (hs : Isolated cfg c answer s₁ s) :
    ∃ events, s.trace = events ++ s₁.trace := by
  refine hs.invariant (fun t ht => ?_ : ∀ t, t = s₁ → ∃ events, t.trace = events ++ s₁.trace) ?_
  · exact ⟨[], by rw [ht]; rfl⟩
  · intro t a t' _ ⟨events, hevents⟩ hok h
    have hcons : ∃ e, t'.trace = e :: t.trace := by
      rcases isolated_cases hok h with ⟨trx, vec, -, -, rfl⟩ | ⟨i, wr, -, rfl⟩ | ⟨g, rfl⟩ <;>
        exact ⟨_, rfl⟩
    obtain ⟨e, he⟩ := hcons
    exact ⟨e :: events, by rw [he, hevents]; rfl⟩

theorem exists_committed {s₁ : State} {started : Event} (htrace : s₁.trace = started :: s₀.trace)
    (hbefore : ∀ e ∈ s₀.trace, e.finishOf c = none) (schedule : List Action)
    (h : (Transition.runIf (step cfg) (fun _ a => decide (a.isolated c answer)) s₁ schedule).any
      (fun s => decide (s.committed c = true)) = true) :
    ∃ s events, Isolated cfg c answer s₁ s ∧ (s.clients c).phase = .idle ∧
      (s.clients c).outstanding = [] ∧ s.trace = events ++ s₀.trace ∧
      ∃ e ∈ events, e.finishOf c = some .COMMITTED := by
  obtain ⟨s, hs, hcommitted⟩ := @Transition.exists_reachableBy _ _ (· = s₁) (step cfg) _ _ _ rfl
    schedule _ _ h
  obtain ⟨hidle, hdone, e, he, hfinish⟩ := State.committed_iff.1 hcommitted
  obtain ⟨events, hevents⟩ := trace_of_isolated hs
  have hall : s.trace = (events ++ [started]) ++ s₀.trace := by simp [hevents, htrace]
  refine ⟨s, _, hs, hidle, hdone, hall, e, ?_, hfinish⟩
  rw [hall] at he
  rcases List.mem_append.1 he with he | he
  · exact he
  · rw [hbefore e he] at hfinish
    cases hfinish

/-- The rows of the versioned tables carry the keys they are stored under. -/
def State.RowsNamed (s : State) : Prop :=
  ∀ k : Key, k.versioned = true → k.Names (s.mem k).head.body

theorem rowsNamed_of_reachable (h : Reachable cfg s) (hwrap : NoWrap cfg s) : s.RowsNamed := by
  intro k hk
  have hrecord := (inv_of_reachable h hwrap).records k hk
  exact (Key.names_iff_of_mask_eq hrecord.body).2 (hrecord.names _ (s.current_mem k))

/-! ## Copies of heads -/

variable {t : Table} {b : ℕ} {m₀ : Memory} {slots slots' : List (Key × ℕ)} {lm : LocalMemory}
  {cl' : Client}

def Verb.fills (t : Table) (b : ℕ) : Verb → Bool
  | .readHead k b' => k.table = t ∧ b' = b
  | .readOlderVersion k _ | .readVersion k _ => k.table = t ∧ b = 0
  | .readOrderLines .. => t = .orderLine
  | .fetchAndAdd .. => t = .district ∧ b = 0
  | _ => false

theorem Verb.lands_of_fills (h : v.fills t b = true) : v.lands = true := by
  cases v <;> first | rfl | cases h

theorem State.landLocal_head_of_not_fills (h : v.fills t b = false) :
    (s.landLocal v lm).head t b = lm.head t b := by
  refine State.landLocal_head_of_ne ?_ ?_ ?_ ?_ ?_ <;> intros <;> subst_vars <;>
    simp only [Verb.fills, Bool.decide_and, Bool.and_eq_false_iff, decide_eq_false_iff_not] at h
  · exact h.imp Ne.symm Ne.symm
  · exact h.imp Ne.symm id
  · exact h.imp Ne.symm id
  · exact h
  · exact h

/-- The heads `slots` of the memory `m₀` are copied into the buffers of the object `cls`: a copy is
being read or was read, and nothing else is written in its place. -/
structure Copying (m₀ : Memory) (cls : TrxClass) (slots : List (Key × ℕ)) (cl : Client) : Prop where
  each : ∀ p ∈ slots, .readHead p.1 p.2 ∈ cl.verbs ∨
    (cl.localMemory cls).head p.1.table p.2 = (m₀ p.1).head
  fills : ∀ v ∈ cl.verbs, ∀ p ∈ slots, v.fills p.1.table p.2 = true → v = .readHead p.1 p.2

theorem Copying.copied (h : Copying m₀ cls slots cl) (hrest : cl.Rested) {p : Key × ℕ}
    (hp : p ∈ slots) : (cl.localMemory cls).head p.1.table p.2 = (m₀ p.1).head := by
  refine (h.each p hp).resolve_left fun hmem => ?_
  obtain ⟨wr, hwr, hv⟩ := List.mem_map.1 hmem
  have hlands := hrest.landed wr hwr
  rw [hv] at hlands
  cases hlands

theorem Copying.effect (h : Copying m₀ cls slots (s.clients c)) (ho : (s.clients c).Oldest cfg i wr)
    (hown : wr.owner.trx.cls = cls) (hmem : wr.verb.kind = .read → s.mem = m₀) :
    Copying m₀ cls slots ((s.effect c i wr answer).clients c) := by
  have hv := Client.oldest_verbs ho
  rw [State.effect_clients_self]
  constructor
  · intro p hp
    have hhead : (((s.land wr answer (s.clients c)).complete i wr).localMemory cls).head
        p.1.table p.2 =
        (s.landLocal wr.verb ((s.clients c).localMemory cls)).head p.1.table p.2 := by
      subst hown
      simp only [Client.complete, State.land, Function.update_self]
    rw [hhead, Client.verbs_complete]
    cases hfills : wr.verb.fills p.1.table p.2 with
    | true =>
      have hread := h.fills _ (List.mem_of_getElem? hv.getElem) p hp hfills
      rw [hread] at hmem ⊢
      right
      rw [← hmem rfl]
      exact LocalMemory.setHead_head_self _
    | false =>
      rw [State.landLocal_head_of_not_fills hfills]
      refine (h.each p hp).imp (fun hpend => hv.mem_eraseIdx hpend ?_) id
      intro heq
      rw [← heq] at hfills
      simp [Verb.fills] at hfills
  · rw [Client.verbs_complete]
    exact fun v hv => h.fills v (List.mem_of_mem_eraseIdx hv)

theorem Verb.lands_of_read (h : v.kind = .read) : v.lands = true := by
  cases v <;> first | rfl | cases h

theorem Client.Rested.kind_ne_read (h : cl.Rested) (hv : v ∈ cl.verbs) : v.kind ≠ .read := by
  intro hread
  obtain ⟨wr, hwr, rfl⟩ := List.mem_map.1 hv
  have hlands := h.landed wr hwr
  rw [Verb.lands_of_read hread] at hlands
  cases hlands

theorem Client.Rested.copying (h : cl.Rested) {vs : List Verb} (hverbs : cl'.verbs = cl.verbs ++ vs)
    (heach : ∀ p ∈ slots, .readHead p.1 p.2 ∈ vs ∨
      (cl'.localMemory cls).head p.1.table p.2 = (m₀ p.1).head)
    (hfills : ∀ v ∈ vs, ∀ p ∈ slots, v.fills p.1.table p.2 = true → v = .readHead p.1 p.2) :
    Copying m₀ cls slots cl' := by
  constructor
  · intro p hp
    rw [hverbs]
    exact (heach p hp).imp (List.mem_append_right _) id
  · intro v hv p hp hf
    rw [hverbs] at hv
    rcases List.mem_append.1 hv with hv | hv
    · obtain ⟨wr, hwr, rfl⟩ := List.mem_map.1 hv
      have hlands := h.landed wr hwr
      rw [Verb.lands_of_fills hf] at hlands
      cases hlands
    · exact hfills v hv p hp hf

theorem Copying.keep (h : Copying m₀ cls slots cl) (hrest : cl.Rested) {vs : List Verb}
    (hverbs : cl'.verbs = cl.verbs ++ vs)
    (hlocal : (cl'.localMemory cls).head = (cl.localMemory cls).head)
    (hfills : ∀ v ∈ vs, ∀ p ∈ slots, v.fills p.1.table p.2 = false) :
    Copying m₀ cls slots cl' := by
  refine hrest.copying hverbs (fun p hp => .inr ?_) fun v hv p hp hf => ?_
  · rw [hlocal]
    exact h.copied hrest hp
  · rw [hfills v hv p hp] at hf
    cases hf

theorem Copying.poll (h : Copying m₀ cls slots cl) : Copying m₀ cls slots (cl.poll cfg) :=
  ⟨h.each, h.fills⟩

theorem exists_of_mem_log {servers : List ℕ}
    (h : v ∈ (servers.map fun n => (⟨.writeLog n, true⟩ : Post)).map (·.verb)) :
    ∃ n, v = .writeLog n := by
  obtain ⟨p, hp, rfl⟩ := List.mem_map.1 h
  obtain ⟨n, -, rfl⟩ := List.mem_map.1 hp
  exact ⟨n, rfl⟩

/-! ## Stages -/

/-- The transaction has not ended. -/
abbrev Unfinished (c : ClientID) (events : List Event) : Prop :=
  events.filterMap (Event.finishOf c) = []

theorem Unfinished.cons {e : Event} (h : Unfinished c events) (he : e.finishOf c = none) :
    Unfinished c (e :: events) := by
  rw [Unfinished, List.filterMap_cons_none he, h]

def NotCommitted (c : ClientID) (events : List Event) : Prop :=
  ∀ e ∈ events, e.finishOf c ≠ some .COMMITTED

theorem NotCommitted.cons {e : Event} (h : NotCommitted c events) (he : e.finishOf c = none) :
    NotCommitted c (e :: events) := by
  intro e' he'
  rcases List.mem_cons.1 he' with rfl | he'
  · rw [he]
    exact nofun
  · exact h e' he'

theorem Unfinished.not_committed {reason : AbortReason} (h : Unfinished c events) :
    NotCommitted c (.cpu c o (.finish (.ABORTED reason)) :: events) := by
  intro e he
  rcases List.mem_cons.1 he with rfl | he
  · simp [Event.finishOf]
  · rw [List.filterMap_eq_nil_iff.1 h e he]
    exact nofun

/-- A transaction that has only read, the heads `slots` among others. -/
structure Reading (m₀ : Memory) (c : ClientID) (cls : TrxClass) (slots : List (Key × ℕ))
    (cl : Client) (events : List Event) (posted : List Verb) : Prop where
  reads : ∀ v ∈ posted, v.kind = .read
  copying : Copying m₀ cls slots cl
  unfinished : Unfinished c events

/-- A transaction that has read the heads `slots` and is past its READs; what it has posted
satisfies `ok`. -/
structure Holding (m₀ : Memory) (c : ClientID) (cls : TrxClass) (slots : List (Key × ℕ))
    (ok : Verb → Prop) (cl : Client) (events : List Event) (posted : List Verb) : Prop where
  allowed : ∀ v ∈ posted, ok v
  copying : Copying m₀ cls slots cl
  landed : ∀ v ∈ cl.verbs, v.kind ≠ .read
  unfinished : Unfinished c events

variable {ok : Verb → Prop} {vs : List Verb} {e : Event}

theorem Reading.poll (h : Reading m₀ c cls slots cl events posted) :
    Reading m₀ c cls slots (cl.poll cfg) events posted :=
  { h with copying := h.copying.poll }

theorem Holding.poll (h : Holding m₀ c cls slots ok cl events posted) :
    Holding m₀ c cls slots ok (cl.poll cfg) events posted :=
  { h with copying := h.copying.poll }

/-- A request takes effect. -/
theorem Reading.effect (h : Reading s₀.mem c cls slots (s.clients c) events posted)
    (hunder : Underway cfg s₀ c cls s events posted) (ho : (s.clients c).Oldest cfg i wr) :
    Reading s₀.mem c cls slots ((s.effect c i wr answer).clients c)
      (.effect c wr (wr.verb.reply s.mem) :: events) posted where
  reads := h.reads
  copying := h.copying.effect ho (hunder.own wr (List.mem_of_getElem? ho.getElem))
    fun _ => hunder.mem_of_reads h.reads
  unfinished := h.unfinished.cons rfl

@[inherit_doc Reading.effect]
theorem Holding.effect (h : Holding s₀.mem c cls slots ok (s.clients c) events posted)
    (hunder : Underway cfg s₀ c cls s events posted) (ho : (s.clients c).Oldest cfg i wr) :
    Holding s₀.mem c cls slots ok ((s.effect c i wr answer).clients c)
      (.effect c wr (wr.verb.reply s.mem) :: events) posted where
  allowed := h.allowed
  copying := h.copying.effect ho (hunder.own wr (List.mem_of_getElem? ho.getElem)) fun hread =>
    absurd hread (h.landed _ (List.mem_of_getElem? (Client.oldest_verbs ho).getElem))
  landed := by
    rw [State.effect_clients_self, Client.verbs_complete]
    exact fun v hv => h.landed v (List.mem_of_mem_eraseIdx hv)
  unfinished := h.unfinished.cons rfl

theorem Reading.post (h : Reading m₀ c cls slots cl events posted) (hrest : cl.Rested)
    (hverbs : cl'.verbs = cl.verbs ++ vs)
    (hlocal : (cl'.localMemory cls).head = (cl.localMemory cls).head)
    (hreads : ∀ v ∈ vs, v.kind = .read)
    (hfills : ∀ v ∈ vs, ∀ p ∈ slots', v.fills p.1.table p.2 = true → v = .readHead p.1 p.2)
    (hslots : ∀ p ∈ slots', p ∈ slots ∨ .readHead p.1 p.2 ∈ vs) (he : e.finishOf c = none) :
    Reading m₀ c cls slots' cl' (e :: events) (posted ++ vs) where
  reads := fun v hv => (List.mem_append.1 hv).elim (h.reads v) (hreads v)
  copying := by
    refine hrest.copying hverbs (fun p hp => ?_) hfills
    rcases hslots p hp with hold | hnew
    · right
      rw [hlocal]
      exact h.copying.copied hrest hold
    · exact .inl hnew
  unfinished := h.unfinished.cons he

/-- At rest, a transaction that has only read is past its READs. -/
theorem Reading.holding (h : Reading m₀ c cls slots cl events posted) (hrest : cl.Rested)
    (hread : ∀ v : Verb, v.kind = .read → ok v) : Holding m₀ c cls slots ok cl events posted :=
  ⟨fun v hv => hread v (h.reads v hv), h.copying, fun _ => hrest.kind_ne_read, h.unfinished⟩

theorem Holding.post (h : Holding m₀ c cls slots ok cl events posted) (hrest : cl.Rested)
    (hverbs : cl'.verbs = cl.verbs ++ vs)
    (hlocal : (cl'.localMemory cls).head = (cl.localMemory cls).head)
    (hvs : ∀ v ∈ vs, ok v ∧ v.kind ≠ .read ∧ ∀ p ∈ slots, v.fills p.1.table p.2 = false)
    (he : e.finishOf c = none) : Holding m₀ c cls slots ok cl' (e :: events) (posted ++ vs) where
  allowed := fun v hv => (List.mem_append.1 hv).elim (h.allowed v) fun hv => (hvs v hv).1
  copying := h.copying.keep hrest hverbs hlocal fun v hv => (hvs v hv).2.2
  landed := by
    intro v hv
    rw [hverbs] at hv
    exact (List.mem_append.1 hv).elim hrest.kind_ne_read fun hv => (hvs v hv).2.1
  unfinished := h.unfinished.cons he

end RdmaSnapshot
