import Mathlib.Algebra.BigOperators.Group.Finset.Basic
import Mathlib.Algebra.Order.BigOperators.Group.Finset
import RdmaSnapshot.TPCW.Manager

/-!
# The two-sided commit protocol is atomic

The invariant of the whole system: the connections of every client are in order, a lock is taken
exactly while one transaction holds it, and an item's stock is what the installed lines made of it.
From it follows what the protocol guarantees (`State.Atomic`). Threads of resource managers never
wait for a lock, so they process every request that was sent.
-/

namespace RdmaSnapshot.TPCW.TwoSided

/-! ## One client -/

def Event.client : Event → ℕ
  | .locked t _ _ => t.client
  | .installed t _ _ _ => t.client
  | .unlocked t _ _ => t.client
  | .sent t _ _ => t.client
  | .answered t _ _ => t.client

section Foreign

variable {cfg : Config} {c c' i j : ℕ} {tm tm' : TrxManager} {l l' : Link} {ls ls' : ℕ → Link}
  {rm rm' : ResManager} {es trace : List Event}

theorem sentTo_eq_nil (h : ∀ e ∈ es, e.client ≠ c) : sentTo es c i = [] := by
  refine List.filterMap_eq_nil_iff.2 fun e he => ?_
  have hc := h e he
  cases e <;> simp_all [Event.client]

theorem installsOf_eq_nil (h : ∀ e ∈ es, e.client ≠ c) : installsOf es c i = [] := by
  refine List.filterMap_eq_nil_iff.2 fun e he => ?_
  have hc := h e he
  cases e <;> simp_all [Event.client]

theorem Does.client (h : Does c i l rm l' rm' es) : ∀ e ∈ es, e.client = c := by
  cases h <;> simp [Event.client]

theorem Moves.client (h : Moves cfg c tm ls tm' ls' es) : ∀ e ∈ es, e.client = c := by
  cases h with
  | ask _ _ =>
    intro e he
    split at he <;> simp_all [Event.client]
  | _ => simp [Event.client]

theorem Does.installsOf_ne (h : Does c i l rm l' rm' es) (hj : j ≠ i) : installsOf es c j = [] := by
  cases h <;> simp [installsOf, hj.symm]

theorem Does.not_answered (h : Does c i l rm l' rm' es) {t : Trx} {cart : List ShoppingCartLine}
    {o : CommitOutcome} : .answered t cart o ∉ es := by
  cases h <;> simp

theorem SamePlace.refl (tm : TrxManager) (j : ℕ) : SamePlace tm tm j := by
  constructor <;> simp

/-- What happens elsewhere does not concern a connection. -/
theorem LinkOK.frame (h : LinkOK c tm j l trace) (hsent : sentTo es c j = [])
    (hinstalls : installsOf es c j = []) : LinkOK c tm j l (trace ++ es) :=
  h.samePlace (.refl tm j) hsent hinstalls

end Foreign

/-- The connections of the thread that serves client `c`, and the answers it gave. -/
structure ClientOK (cfg : Config) (c : ℕ) (tm : TrxManager) (ls : ℕ → Link) (trace : List Event) :
    Prop where
  links : ∀ i < cfg.SERVER_CNT, LinkOK c tm i (ls i) trace
  count : tm.trx_num ≤ cfg.TRANSACTION_CNT
  started : tm.pc ≠ .readCommitRequest → 1 ≤ tm.trx_num ∧ tm.cart.length = cfg.SERVER_CNT
  answered : ∀ n cart o, .answered ⟨c, n⟩ cart o ∈ trace →
    (n < tm.trx_num ∨ n = tm.trx_num ∧ tm.pc = .readCommitRequest) ∧
      ∀ i < cfg.SERVER_CNT, ∃ line r, cart[i]? = some line ∧ (n, r) ∈ sentTo trace c i ∧
        Settles line r o

namespace ClientOK

variable {cfg : Config} {c i : ℕ} {tm tm' : TrxManager} {l' : Link} {ls ls' : ℕ → Link}
  {rm rm' : ResManager} {es trace : List Event}

variable (h : ClientOK cfg c tm ls trace)

include h

theorem frame (hes : ∀ e ∈ es, e.client ≠ c) : ClientOK cfg c tm ls (trace ++ es) where
  links i hi := (h.links i hi).frame (sentTo_eq_nil hes) (installsOf_eq_nil hes)
  count := h.count
  started := h.started
  answered n cart o hmem := by
    rcases List.mem_append.1 hmem with hmem | hmem
    · simpa [sentTo_eq_nil hes] using h.answered n cart o hmem
    · exact absurd rfl (hes _ hmem)

theorem thread (hnext : (ls i).next cfg c i rm = some (l', rm', es)) :
    ClientOK cfg c tm (Function.update ls i l') (trace ++ es) where
  links j hj := by
    have hdoes := Link.next_does hnext
    by_cases hji : j = i
    · subst hji
      rw [Function.update_self]
      exact (h.links j hj).thread hnext
    · rw [Function.update_of_ne hji]
      exact (h.links j hj).frame (hdoes.sentTo_eq c j) (hdoes.installsOf_ne hji)
  count := h.count
  started := h.started
  answered n cart o hmem := by
    have hdoes := Link.next_does hnext
    rcases List.mem_append.1 hmem with hmem | hmem
    · simpa [hdoes.sentTo_eq] using h.answered n cart o hmem
    · exact absurd hmem hdoes.not_answered

theorem update_links {l : Link} (hi : i < cfg.SERVER_CNT → LinkOK c tm' i l (trace ++ es))
    (hsame : ∀ j, j ≠ i → SamePlace tm tm' j) (hsent : ∀ j, j ≠ i → sentTo es c j = [])
    (hinstalls : ∀ j, j ≠ i → installsOf es c j = []) (j : ℕ) (hj : j < cfg.SERVER_CNT) :
    LinkOK c tm' j (Function.update ls i l j) (trace ++ es) := by
  by_cases hji : j = i
  · subst hji
    rw [Function.update_self]
    exact hi hj
  · rw [Function.update_of_ne hji]
    exact (h.links j hj).samePlace (hsame j hji) (hsent j hji) (hinstalls j hji)

theorem links_moves (hm : Moves cfg c tm ls tm' ls' es) :
    ∀ j < cfg.SERVER_CNT, LinkOK c tm' j (ls' j) (trace ++ es) := by
  cases hm with
  | submit pc _ _ =>
    intro j hj
    rw [List.append_nil]
    exact (h.links j hj).submit pc
  | @ask t i hi pc =>
    have hn := (h.started (by simp [pc])).1
    apply h.update_links
    · intro hi
      cases t with
      | itemInfo => simpa using (h.links i hi).ask_itemInfo pc hn
      | lock => simpa using (h.links i hi).ask_lock pc
      | writeData => simpa using (h.links i hi).ask_writeData pc hn
    · exact fun j hj => .of_ask pc hj
    · intro j hj
      split <;> simp [sentTo, hj.symm]
    · intro j hj
      split <;> rfl
  | leave _ _ _ _ same =>
    intro j hj
    exact (h.links j hj).samePlace (same j hj) rfl rfl
  | @itemInfo i v responses hi pc read =>
    apply h.update_links
    · intro hi
      rw [List.append_nil]
      exact (h.links i hi).read_itemInfo pc read
    · exact fun j hj => .of_itemInfo pc hj
    · exact fun _ _ => rfl
    · exact fun _ _ => rfl
  | @lock i ok responses hi pc read =>
    apply h.update_links
    · intro hi
      rw [List.append_nil]
      exact (h.links i hi).read_lock pc read
    · exact fun j hj => .of_lockResponse pc hj
    · exact fun _ _ => rfl
    · exact fun _ _ => rfl
  | answer pc =>
    intro j hj
    exact (h.links j hj).answer pc

theorem settles (hpc : tm.pc = .writeCommitResponse)
    (hi : i < cfg.SERVER_CNT) : ∃ line r, tm.cart[i]? = some line ∧
      (tm.trx_num, r) ∈ sentTo trace c i ∧ Settles line r (commitOutcome tm.abort_flag) := by
  have hlength := (h.started (by simp [hpc])).2
  have hline : tm.cart[i]? = some (tm.line i) := by
    rw [TrxManager.line, List.getD_eq_getElem?_getD, List.getElem?_eq_getElem (by omega)]
    rfl
  refine ⟨tm.line i, tm.writeData i, hline, (h.links i hi).closing ?_, ?_⟩
  · simp [TrxManager.Closing, hpc]
  · cases habort : tm.abort_flag
    · exact ⟨tm.commit_timestamp, by simp [TrxManager.writeData, writeDataRequest, habort, install]⟩
    · cases hs : tm.successful_locking_servers i <;>
        simp [commitOutcome, Settles, TrxManager.writeData, writeDataRequest, habort, hs, install]

theorem moves (hm : Moves cfg c tm ls tm' ls' es) : ClientOK cfg c tm' ls' (trace ++ es) where
  links := h.links_moves hm
  count := by
    cases hm with
    | submit _ hcount _ => exact hcount
    | leave _ _ _ trx_num _ => rw [trx_num]; exact h.count
    | _ => exact h.count
  started := by
    cases hm with
    | submit _ _ hlength => exact fun _ => ⟨Nat.le_add_left .., hlength⟩
    | leave pc _ cart trx_num _ =>
      intro _
      rw [cart, trx_num]
      exact h.started pc
    | answer _ => simp
    | ask _ pc => exact fun _ => h.started (by simp [pc])
    | itemInfo _ pc _ => exact fun _ => h.started (by simp [pc])
    | lock _ pc _ => exact fun _ => h.started (by simp [pc])
  answered n cart o hmem := by
    have hmono : ∀ i < cfg.SERVER_CNT, ∀ p ∈ sentTo trace c i, p ∈ sentTo (trace ++ es) c i := by
      intro i _ p hp
      rw [sentTo_append]
      exact List.mem_append_left _ hp
    rcases List.mem_append.1 hmem with hmem | hmem
    · obtain ⟨hn, hsettles⟩ := h.answered n cart o hmem
      refine ⟨?_, fun i hi => ?_⟩
      · cases hm with
        | submit _ _ _ =>
          left
          change n < tm.trx_num + 1
          omega
        | leave pc _ _ trx_num _ =>
          rw [trx_num]
          exact .inl (hn.resolve_right fun h => pc h.2)
        | answer pc => exact .inl (hn.resolve_right fun h => by simp [pc] at h)
        | ask _ pc => exact .inl (hn.resolve_right fun h => by simp [pc] at h)
        | itemInfo _ pc _ => exact .inl (hn.resolve_right fun h => by simp [pc] at h)
        | lock _ pc _ => exact .inl (hn.resolve_right fun h => by simp [pc] at h)
      · obtain ⟨line, r, hline, hr, hsettles⟩ := hsettles i hi
        exact ⟨line, r, hline, hmono i hi _ hr, hsettles⟩
    · cases hm with
      | answer pc =>
        simp only [List.mem_singleton, Event.answered.injEq, Trx.mk.injEq, true_and] at hmem
        obtain ⟨rfl, rfl, rfl⟩ := hmem
        refine ⟨.inr ⟨rfl, rfl⟩, fun i hi => ?_⟩
        obtain ⟨line, r, hline, hr, hsettles⟩ := h.settles pc hi
        exact ⟨line, r, hline, hmono i hi _ hr, hsettles⟩
      | ask _ _ => split at hmem <;> simp at hmem
      | _ => simp at hmem

end ClientOK

/-! ## Locks -/

/-- A lock is taken exactly while one transaction holds it, and the locks that a client's
transactions hold are those under way on its connections. -/
structure LocksOK (cfg : Config) (s : State) : Prop where
  mutex : ∀ i x, holders s.trace i x = [] ∧ (s.resManagers i).item_lock x = false ∨
    ∃ t, holders s.trace i x = [t] ∧ (s.resManagers i).item_lock x = true
  held : ∀ c, ∀ i < cfg.SERVER_CNT, ∀ n x,
    ⟨c, n⟩ ∈ holders s.trace i x ↔ (n, x) ∈ heldLocks (s.managers c) i (s.links c i)

def State.afterThread (s : State) (c i : ℕ) (l : Link) (rm : ResManager) (es : List Event) :
    State :=
  ⟨s.timestamp, s.managers, Function.update s.links c (Function.update (s.links c) i l),
    Function.update s.resManagers i rm, s.trace ++ es⟩

theorem thread_next {cfg : Config} {c i : ℕ} {s s' : State} (h : s.thread cfg c i = some s') :
    ∃ l rm es, (s.links c i).next cfg c i (s.resManagers i) = some (l, rm, es) ∧
      s' = s.afterThread c i l rm es := by
  obtain ⟨⟨l, rm, es⟩, hnext, rfl⟩ := Option.map_eq_some_iff.1 h
  exact ⟨l, rm, es, hnext, rfl⟩

section Locks

variable {cfg : Config} {c i j : ℕ} {x y : Int32} {s : State} {tm tm' : TrxManager} {l : Link}
  {ls ls' : ℕ → Link} {rm : ResManager} {es trace : List Event} {t : Trx}

theorem holders_locked : holders (trace ++ [.locked t i x]) j y =
    if i = j ∧ x = y then holders trace j y ++ [t] else holders trace j y :=
  holders_append

theorem holders_unlocked : holders (trace ++ [.unlocked t i x]) j y =
    if i = j ∧ x = y then (holders trace j y).erase t else holders trace j y :=
  holders_append

theorem Moves.holders (h : Moves cfg c tm ls tm' ls' es) :
    TwoSided.holders (trace ++ es) j y = TwoSided.holders trace j y := by
  rw [holders_append]
  cases h with
  | ask _ _ => split <;> rfl
  | _ => rfl

theorem LocksOK.moves {timestamp : UInt64} (h : LocksOK cfg s)
     (hc : ClientOK cfg c (s.managers c) (s.links c) s.trace)
    (hm : Moves cfg c (s.managers c) (s.links c) tm' ls' es) :
    LocksOK cfg (s.after c timestamp tm' ls' es) where
  mutex i x := by
    simp only [State.after, hm.holders]
    exact h.mutex i x
  held c' i hi n x := by
    simp only [State.after, hm.holders]
    rw [h.held c' i hi]
    by_cases hcc : c' = c
    · subst hcc
      rw [Function.update_self, Function.update_self, held_moves hm (hc.links i hi) hi]
    · rw [Function.update_of_ne hcc, Function.update_of_ne hcc]

theorem LocksOK.holders_eq {n : ℕ} (h : LocksOK cfg s) (hi : i < cfg.SERVER_CNT)
    (hheld : (n, x) ∈ heldLocks (s.managers c) i (s.links c i)) :
    holders s.trace i x = [⟨c, n⟩] := by
  have hmem := (h.held c i hi n x).2 hheld
  obtain ⟨hnil, -⟩ | ⟨t, ht, -⟩ := h.mutex i x
  · simp [hnil] at hmem
  · rw [ht] at hmem ⊢
    rw [List.mem_singleton.1 hmem]

/-- The locks that are held on the connections after an operation of a thread: only its own
connection changed. -/
theorem held_afterThread (c' : ℕ) :
    heldLocks (s.managers c') j ((s.afterThread c i l rm es).links c' j) =
      if c' = c ∧ j = i then heldLocks (s.managers c) i l
      else heldLocks (s.managers c') j (s.links c' j) := by
  by_cases hcc : c' = c
  · subst hcc
    by_cases hji : j = i
    · subst hji
      simp [State.afterThread]
    · simp [State.afterThread, hji]
  · simp [State.afterThread, hcc]

theorem LocksOK.change {ts : List Trx} {taken : Bool} (h : LocksOK cfg s)
    (hholders : ∀ j y, holders (s.trace ++ es) j y =
      if i = j ∧ x = y then ts else holders s.trace j y)
    (hlocks : rm.item_lock = Function.update (s.resManagers i).item_lock x taken)
    (hmutex : ts = [] ∧ taken = false ∨ ∃ t, ts = [t] ∧ taken = true)
    (hown : ∀ n y, (n, y) ∈ heldLocks (s.managers c) i l ↔
      if y = x then ⟨c, n⟩ ∈ ts else (n, y) ∈ heldLocks (s.managers c) i (s.links c i))
    (hothers : ∀ c' n, c' ≠ c → (⟨c', n⟩ ∈ ts ↔ ⟨c', n⟩ ∈ holders s.trace i x)) :
    LocksOK cfg (s.afterThread c i l rm es) where
  mutex j y := by
    simp only [State.afterThread, hholders]
    by_cases hji : j = i
    · subst hji
      by_cases hyx : y = x
      · subst hyx
        simpa [hlocks] using hmutex
      · simpa [hlocks, hyx, Ne.symm hyx] using h.mutex j y
    · simpa [hji, Ne.symm hji] using h.mutex j y
  held c' j hj n y := by
    rw [show (s.afterThread c i l rm es).managers = s.managers from rfl, held_afterThread]
    simp only [State.afterThread, hholders]
    by_cases hji : j = i
    · subst hji
      by_cases hcc : c' = c
      · subst hcc
        by_cases hyx : y = x
        · subst hyx
          simp [hown]
        · simp [hown, hyx, Ne.symm hyx, h.held c' j hj]
      · by_cases hyx : y = x
        · subst hyx
          simp [hcc, hothers c' n hcc, h.held c' j hj]
        · simp [hcc, Ne.symm hyx, h.held c' j hj]
    · simp [hji, Ne.symm hji, h.held c' j hj]

theorem LocksOK.thread (h : LocksOK cfg s) (hi : i < cfg.SERVER_CNT)
    (he : LockEffect c i (s.resManagers i) rm es (heldLocks (s.managers c) i (s.links c i))
      (heldLocks (s.managers c) i l)) : LocksOK cfg (s.afterThread c i l rm es) := by
  cases he with
  | none locks events hheld =>
    have hholders (j : ℕ) (y : Int32) : holders (s.trace ++ es) j y = holders s.trace j y := by
      rw [holders_append, events]
    constructor
    case mutex =>
      intro j y
      have hlock : (Function.update s.resManagers i rm j).item_lock y =
          (s.resManagers j).item_lock y := by
        by_cases hji : j = i
        · rw [hji, Function.update_self, locks]
        · rw [Function.update_of_ne hji]
      simp only [State.afterThread, hholders, hlock]
      exact h.mutex j y
    case held =>
      intro c' j hj n y
      rw [show (s.afterThread c i l rm es).managers = s.managers from rfl, held_afterThread]
      simp only [State.afterThread, hholders, h.held c' j hj]
      split
      · rename_i hcj
        rw [hcj.1, hcj.2, hheld]
      · rfl
  | lock n x free locks events before after =>
    have hnil : holders s.trace i x = [] := by
      obtain ⟨hnil, -⟩ | ⟨t, -, htaken⟩ := h.mutex i x
      · exact hnil
      · simp [free] at htaken
    refine h.change ?_ locks (.inr ⟨⟨c, n⟩, rfl, rfl⟩) ?_ ?_
    · intro j y
      rw [events, holders_locked]
      split
      · rename_i hjy
        rw [← hjy.1, ← hjy.2, hnil]
        rfl
      · rfl
    · intro m y
      rw [after, before]
      by_cases hyx : y = x <;> simp [hyx]
    · intro c' m hcc
      simp [hnil, hcc]
  | unlock n x locks events before after =>
    have hholder : holders s.trace i x = [⟨c, n⟩] := h.holders_eq hi (by simp [before])
    refine h.change ?_ locks (.inl ⟨rfl, rfl⟩) ?_ ?_
    · intro j y
      rw [events, holders_unlocked]
      split
      · rename_i hjy
        rw [← hjy.1, ← hjy.2, hholder]
        simp
      · rfl
    · intro m y
      rw [after, before]
      by_cases hyx : y = x <;> simp [hyx]
    · intro c' m hcc
      simp [hholder, hcc]

end Locks

/-! ## Installed versions -/

/-- Every version was installed while its transaction held the lock. -/
def InstalledLocked (trace : List Event) : Prop :=
  ∀ past t i line ts future, trace = past ++ .installed t i line ts :: future →
    t ∈ holders past i line.SCL_I_ID

theorem InstalledLocked.concat {trace : List Event} {e : Event} (h : InstalledLocked trace)
    (he : ∀ t i line ts, e = .installed t i line ts → t ∈ holders trace i line.SCL_I_ID) :
    InstalledLocked (trace ++ [e]) := by
  intro past t i line ts future heq
  rcases List.eq_nil_or_concat future with rfl | ⟨future', e', rfl⟩
  · obtain ⟨rfl, hlast⟩ := List.append_inj' heq rfl
    exact he t i line ts (List.singleton_inj.1 hlast)
  · rw [List.concat_eq_append, ← List.cons_append, ← List.append_assoc] at heq
    exact h past t i line ts future' (List.append_inj' heq rfl).1

def stockAfter (stock : Int32) (installs : List (Trx × ShoppingCartLine)) : Int32 :=
  installs.foldl (fun stock p => decrementStock stock p.2.SCL_QTY) stock

theorem installsAt_append {trace es : List Event} {i : ℕ} {x : Int32} :
    installsAt (trace ++ es) i x = installsAt trace i x ++ installsAt es i x :=
  List.filterMap_append

theorem installsAt_installed {t : Trx} {i j : ℕ} {line : ShoppingCartLine} {ts : UInt64}
    {x : Int32} : installsAt [.installed t i line ts] j x =
      if i = j ∧ line.SCL_I_ID = x then [(t, line)] else [] := by
  by_cases h : i = j ∧ line.SCL_I_ID = x <;> simp [installsAt, h]

theorem Does.stock {c i : ℕ} {l l' : Link} {rm rm' : ResManager} {es : List Event}
    (h : Does c i l rm l' rm' es) (x : Int32) : (rm'.items_region x).I_STOCK =
      stockAfter (rm.items_region x).I_STOCK (installsAt es i x) := by
  cases h with
  | @install n line ts rest todo todo' responses =>
    rw [installsAt_installed]
    by_cases hx : line.SCL_I_ID = x
    · subst hx
      simp [ResManager.decremenet_item_stock, stockAfter]
    · simp [ResManager.decremenet_item_stock, stockAfter, hx, Ne.symm hx]
  | _ => rfl

theorem Does.installsAt_ne {c i j : ℕ} {l l' : Link} {rm rm' : ResManager} {es : List Event}
    {x : Int32} (h : Does c i l rm l' rm' es) (hj : j ≠ i) : installsAt es j x = [] := by
  cases h <;> simp [installsAt, hj.symm]

theorem Moves.installsAt {cfg : Config} {c i : ℕ} {tm tm' : TrxManager} {ls ls' : ℕ → Link}
    {es : List Event} {x : Int32} (h : Moves cfg c tm ls tm' ls' es) :
    TwoSided.installsAt es i x = [] := by
  cases h with
  | ask _ _ => split <;> rfl
  | _ => rfl

/-! ## The whole system -/

structure Inv (cfg : Config) (items : ℕ → Int32 → ItemVersion) (s : State) : Prop where
  clients : ∀ c, ClientOK cfg c (s.managers c) (s.links c) s.trace
  locks : LocksOK cfg s
  locked : InstalledLocked s.trace
  stock : ∀ i x, ((s.resManagers i).items_region x).I_STOCK =
    stockAfter (items i x).I_STOCK (installsAt s.trace i x)
  events : ∀ e ∈ s.trace, e.client < cfg.CLIENTS_CNT

namespace Inv

variable {cfg : Config} {items : ℕ → Int32 → ItemVersion} {c i : ℕ} {s s' : State}

theorem of_init (h : Init items s) : Inv cfg items s := by
  have hview (c i : ℕ) : (s.managers c).view i = .quiet := by
    simp [TrxManager.view, (h.managers c).1]
  constructor
  case clients =>
    intro c
    obtain ⟨hpc, hnum⟩ := h.managers c
    constructor
    case links =>
      intro i _
      rw [h.links, h.trace]
      constructor
      case shape =>
        rw [hview]
        exact ⟨.inl rfl, rfl⟩
      case follows => simp [Follows, Link.expects, TrxManager.asks, hpc]
      case opened => simp [Link.openings, TrxManager.opened, hpc, hnum]
      case closed => simp [TrxManager.closed, hpc, hnum]
      case installs => rfl
      case lock_request => simp [hview]
      case refused => simp [hview]
      case closing => simp [TrxManager.Closing, hpc]
      case committed => simp
    case count => simp [hnum]
    case started => exact fun hpc' => absurd hpc hpc'
    case answered => simp [h.trace]
  case locks =>
    constructor
    case mutex =>
      intro i x
      rw [h.trace, h.resManagers]
      exact .inl ⟨rfl, rfl⟩
    case held =>
      intro c i _ n x
      rw [h.trace, h.links]
      simp [holders, heldLocks, Link.todo, Link.doing, hview]
  case locked =>
    intro past t i line ts future heq
    simp [h.trace] at heq
  case stock =>
    intro i x
    rw [h.trace, h.resManagers]
    rfl
  case events => simp [h.trace]

theorem manager (h : Inv cfg items s) (hc : c < cfg.CLIENTS_CNT) {timestamp : UInt64}
    {tm' : TrxManager} {ls' : ℕ → Link} {es : List Event}
    (hm : Moves cfg c (s.managers c) (s.links c) tm' ls' es) :
    Inv cfg items (s.after c timestamp tm' ls' es) := by
  constructor
  case clients =>
    intro c'
    by_cases hcc : c' = c
    · subst hcc
      simpa [State.after] using (h.clients c').moves hm
    · simp only [State.after, Function.update_of_ne hcc]
      refine (h.clients c').frame fun e he => ?_
      rw [hm.client e he]
      exact Ne.symm hcc
  case locks => exact h.locks.moves (h.clients c) hm
  case locked =>
    have hes : es = [] ∨ ∃ e, es = [e] ∧ ∀ t i line ts, e ≠ .installed t i line ts := by
      cases hm with
      | ask _ _ => split <;> simp
      | _ => simp
    rcases hes with rfl | ⟨e, rfl, he⟩
    · simpa [State.after] using h.locked
    · exact h.locked.concat fun t i line ts heq => absurd heq (he t i line ts)
  case stock =>
    intro i x
    simp only [State.after, installsAt_append, hm.installsAt, List.append_nil]
    exact h.stock i x
  case events =>
    intro e he
    rcases List.mem_append.1 he with he | he
    · exact h.events e he
    · rwa [hm.client e he]

theorem thread (h : Inv cfg items s) (hc : c < cfg.CLIENTS_CNT) (hi : i < cfg.SERVER_CNT)
    {l : Link} {rm : ResManager} {es : List Event}
    (hnext : (s.links c i).next cfg c i (s.resManagers i) = some (l, rm, es)) :
    Inv cfg items (s.afterThread c i l rm es) := by
  have hdoes := Link.next_does hnext
  have hlink := (h.clients c).links i hi
  constructor
  case clients =>
    intro c'
    by_cases hcc : c' = c
    · subst hcc
      simpa [State.afterThread] using (h.clients c').thread hnext
    · simp only [State.afterThread, Function.update_of_ne hcc]
      refine (h.clients c').frame fun e he => ?_
      rw [hdoes.client e he]
      exact Ne.symm hcc
  case locks => exact h.locks.thread hi (hdoes.lockEffect hlink)
  case locked =>
    cases hdoes with
    | @install n line ts rest todo todo' responses =>
      refine h.locked.concat fun t j line' ts' heq => ?_
      obtain ⟨rfl, rfl, rfl, rfl⟩ : _ ∧ _ ∧ _ ∧ _ := by simpa using heq
      rw [h.locks.holders_eq (n := n) hi]
      · exact List.mem_singleton.2 rfl
      · simp [heldLocks, todo]
    | grant _ _ _ => exact h.locked.concat (by simp)
    | release _ _ _ _ _ => exact h.locked.concat (by simp)
    | _ => simpa [State.afterThread] using h.locked
  case stock =>
    intro j x
    simp only [State.afterThread, installsAt_append, stockAfter, List.foldl_append]
    by_cases hji : j = i
    · subst hji
      rw [Function.update_self, hdoes.stock, h.stock]
      rfl
    · rw [Function.update_of_ne hji, hdoes.installsAt_ne hji, h.stock]
      rfl
  case events =>
    intro e he
    rcases List.mem_append.1 he with he | he
    · exact h.events e he
    · rwa [hdoes.client e he]

theorem step {a : Action} (h : Inv cfg items s) (hs : step cfg s a = some s') :
    Inv cfg items s' := by
  cases a with
  | submit c cart =>
    obtain ⟨hc, hs⟩ := Option.ite_none_right_eq_some.1 hs
    obtain ⟨⟨hpc, hcount, hlength⟩, hs⟩ := Option.ite_none_right_eq_some.1 hs
    cases hs
    have hafter : Inv cfg items (s.after c s.timestamp _ (s.links c) []) :=
      h.manager hc (.submit hpc hcount hlength)
    simpa [State.after, State.setManager] using hafter
  | manager c =>
    obtain ⟨hc, hs⟩ := Option.ite_none_right_eq_some.1 hs
    obtain ⟨timestamp, tm', ls', es, hm, rfl⟩ := manager_moves hs
    exact h.manager hc hm
  | thread c i =>
    obtain ⟨⟨hc, hi⟩, hs⟩ := Option.ite_none_right_eq_some.1 hs
    obtain ⟨l, rm, es, hnext, rfl⟩ := thread_next hs
    exact h.thread hc hi hnext

end Inv

theorem inv_of_reachable {cfg : Config} {items : ℕ → Int32 → ItemVersion} {s : State}
    (h : Reachable cfg items s) : Inv cfg items s :=
  h.invariant (fun _ hs => .of_init hs) fun _ _ _ _ hs _ ha => hs.step ha

/-! ## Outcomes -/

theorem filterMap_of_mem {α β : Type*} {f : α → Option β} {ps : List (ℕ × α)} {n : ℕ} {r : α}
    (hnodup : (ps.map Prod.fst).Nodup) (hmem : (n, r) ∈ ps) :
    (ps.filterMap fun p => if p.1 = n then f p.2 else none) = (f r).toList := by
  induction ps with
  | nil => simp at hmem
  | cons p ps ih =>
    rw [List.map_cons, List.nodup_cons] at hnodup
    rcases List.mem_cons.1 hmem with rfl | hmem
    · have hrest : (ps.filterMap fun p => if p.1 = n then f p.2 else none) = [] := by
        refine List.filterMap_eq_nil_iff.2 fun p hp => ?_
        have hne : p.1 ≠ n := by
          rintro rfl
          exact hnodup.1 (List.mem_map.2 ⟨p, hp, rfl⟩)
        simp [hne]
      cases hf : f r <;> simp [hf, hrest]
    · have hne : p.1 ≠ n := by
        rintro rfl
        exact hnodup.1 (List.mem_map.2 ⟨_, hmem, rfl⟩)
      simp [hne, ih hnodup.2 hmem]

section Outcomes

variable {cfg : Config} {items : ℕ → Int32 → ItemVersion} {c i n : ℕ} {tm : TrxManager} {l : Link}
  {trace : List Event} {s : State}

/-- What a transaction has had installed and will have installed on a resource manager is what its
last request there asks for. -/
theorem LinkOK.installsBy_append {r : WriteDataRequest} (h : LinkOK c tm i l trace)
    (hr : (n, r) ∈ sentTo trace c i) : installsBy trace ⟨c, n⟩ i ++
      (l.toInstall.filterMap fun p => if p.1 = n then some p.2.1 else none) =
        ((install r).map Prod.fst).toList := by
  have hnodup : ((sentTo trace c i).map Prod.fst).Nodup := by
    rw [h.closed]
    exact List.nodup_range'
  have hone := filterMap_of_mem (f := fun r => (install r).map Prod.fst) hnodup hr
  rw [installsBy_eq, ← List.filterMap_append, h.installs, List.filterMap_filterMap, ← hone]
  congr 1
  funext p
  cases hp : install p.2 <;> simp

/-- An installation that is left to be made was asked for. -/
theorem Link.toInstall_of_mem {line : ShoppingCartLine} {ts : UInt64}
    (h : (n, line, ts) ∈ l.toInstall) : l.ToInstall n line := by
  obtain ⟨⟨m, k⟩, hmem, hk⟩ := List.mem_filterMap.1 h
  obtain ⟨v, hinstall, hv⟩ := Option.map_eq_some_iff.1 hk
  obtain ⟨rfl, rfl⟩ : m = n ∧ v = (line, ts) := by simpa using hv
  refine ⟨ts, ?_⟩
  obtain rfl : k = .request (.writeData (.INSTALL_VERSION line ts)) := by
    cases k with
    | request r =>
      cases r with
      | writeData r => cases r <;> simp_all [Task.install, install]
      | _ => simp [Task.install] at hinstall
    | unlock x => simp [Task.install] at hinstall
  rcases List.mem_append.1 hmem with hdoing | hrequest
  · left
    cases hpc : l.pc <;> simp_all [Link.doing]
  · right
    obtain ⟨p, hp, heq⟩ := List.mem_map.1 hrequest
    simp_all

theorem Link.Processed.todo_eq (h : l.Processed) : l.todo = [] := by
  obtain ⟨hrequests, t, hpc⟩ := h
  simp [Link.todo, Link.doing, hrequests, hpc]

theorem Inv.committed {t : Trx} {cart : List ShoppingCartLine} (h : Inv cfg items s)
    (hanswered : .answered t cart .COMMITTED ∈ s.trace) (hi : i < cfg.SERVER_CNT) :
    ∃ line, cart[i]? = some line ∧ (installsBy s.trace t i = [line] ∨
      installsBy s.trace t i = [] ∧ (s.links t.client i).ToInstall t.number line) := by
  obtain ⟨line, r, hline, hr, ts, hinstall⟩ :=
    ((h.clients t.client).answered t.number cart _ hanswered).2 i hi
  refine ⟨line, hline, ?_⟩
  have happend := ((h.clients t.client).links i hi).installsBy_append hr
  rw [hinstall] at happend
  rcases List.append_eq_singleton_iff.1 happend with ⟨hnil, hto⟩ | ⟨hinstalled, -⟩
  · refine .inr ⟨hnil, ?_⟩
    have hmem : line ∈ (s.links t.client i).toInstall.filterMap fun p =>
        if p.1 = t.number then some p.2.1 else none := by
      rw [hto]
      exact List.mem_singleton.2 rfl
    obtain ⟨⟨m, line', ts'⟩, hp, heq⟩ := List.mem_filterMap.1 hmem
    obtain ⟨rfl, rfl⟩ : m = t.number ∧ line' = line := by simpa using heq
    exact Link.toInstall_of_mem hp
  · exact .inl hinstalled

theorem Inv.aborted {t : Trx} {cart : List ShoppingCartLine} (h : Inv cfg items s)
    (hanswered : .answered t cart .ABORTED ∈ s.trace) (hi : i < cfg.SERVER_CNT) :
    installsBy s.trace t i = [] := by
  obtain ⟨line, r, -, hr, hinstall⟩ :=
    ((h.clients t.client).answered t.number cart _ hanswered).2 i hi
  have happend := ((h.clients t.client).links i hi).installsBy_append hr
  rw [hinstall] at happend
  exact (List.append_eq_nil_iff.1 happend).1

theorem Inv.installed {x : Int32} {p : Trx × ShoppingCartLine} (h : Inv cfg items s)
    (hi : i < cfg.SERVER_CNT) (hp : p ∈ installsAt s.trace i x) : s.Committed p.1 := by
  obtain ⟨e, he, heq⟩ := List.mem_filterMap.1 hp
  cases e with
  | installed t j line ts =>
    obtain ⟨⟨rfl, -⟩, hsome⟩ := Option.ite_none_right_eq_some.1 heq
    cases hsome
    have hlink := (h.clients t.client).links j hi
    have hmem : (t.number, line, ts) ∈ installsOf s.trace t.client j :=
      List.mem_filterMap.2 ⟨_, he, by simp⟩
    have hsent := List.mem_append_left (s.links t.client j).toInstall hmem
    rw [hlink.installs] at hsent
    obtain ⟨⟨n, r⟩, hr, hinstall⟩ := List.mem_filterMap.1 hsent
    obtain ⟨v, hv, heq⟩ := Option.map_eq_some_iff.1 hinstall
    obtain ⟨rfl, -⟩ : n = t.number ∧ v = (line, ts) := by simpa using heq
    exact hlink.committed _ hr (by simp [hv])
  | _ => cases heq

theorem Inv.unlocked {t : Trx} {cart : List ShoppingCartLine} {o : CommitOutcome} {x : Int32}
    (h : Inv cfg items s) (hanswered : .answered t cart o ∈ s.trace) (hi : i < cfg.SERVER_CNT)
    (hprocessed : (s.links t.client i).Processed) : t ∉ holders s.trace i x := by
  intro hholder
  have hheld := (h.locks.held t.client i hi t.number x).1 hholder
  rw [heldLocks, hprocessed.todo_eq, releases_nil, List.nil_append] at hheld
  have hn := ((h.clients t.client).answered t.number cart o hanswered).1
  split at hheld
  · rename_i hlock
    obtain ⟨hnum, -⟩ : t.number = (s.managers t.client).trx_num ∧ _ := by simpa using hheld
    -- the transaction is the current one, and it is over, so nothing is under way
    have hpc : (s.managers t.client).pc = .readCommitRequest := by
      rcases hn with hlt | ⟨-, hpc⟩
      · omega
      · exact hpc
    have hview : (s.managers t.client).view i = .quiet := by simp [TrxManager.view, hpc]
    have hshape := ((h.clients t.client).links i hi).shape
    rw [hview] at hshape
    simp [hshape.2, hview] at hlock
  · simp at hheld

theorem Inv.atomic (h : Inv cfg items s) : s.Atomic cfg items where
  one_holder i _ x := by
    obtain ⟨hnil, -⟩ | ⟨t, ht, -⟩ := h.locks.mutex i x
    · simp [hnil]
    · simp [ht]
  locked := h.locked
  committed _ _ hanswered _ hi := h.committed hanswered hi
  aborted _ _ hanswered _ hi := h.aborted hanswered hi
  stock i _ x := h.stock i x
  installed _ hi _ _ hp := h.installed hi hp
  processed_committed hprocessed t cart hanswered i hi := by
    obtain ⟨line, hline, hinstalled | ⟨-, ts, hto⟩⟩ := h.committed hanswered hi
    · exact ⟨line, hline, hinstalled⟩
    · obtain ⟨hrequests, u, hpc⟩ := hprocessed t.client (h.events _ hanswered) i hi
      simp [hrequests, hpc] at hto
  processed_unlocked hprocessed t cart o hanswered i hi _ :=
    h.unlocked hanswered hi (hprocessed t.client (h.events _ hanswered) i hi)

end Outcomes

/-! ## Requests get processed -/

/-- The operations that a request takes after it was received. -/
def requestWork : Request → ℕ
  | .writeData _ => 2
  | _ => 1

/-- The operations that are left to a thread. -/
def Link.work (l : Link) : ℕ :=
  (match l.pc with
    | .receive _ => 0
    | .handle _ r => requestWork r
    | .unlock _ _ => 1) + (l.requests.map fun p => requestWork p.2 + 1).sum

section Drain

variable {cfg : Config} {items : ℕ → Int32 → ItemVersion} {c i : ℕ} {l l' : Link}
  {rm rm' : ResManager} {es : List Event} {s : State}

theorem Link.work_next (h : l.next cfg c i rm = some (l', rm', es)) : l'.work < l.work := by
  obtain ⟨requests, responses, pc, trx_num⟩ := l
  cases pc with
  | receive t =>
    cases requests with
    | nil => simp [Link.next] at h
    | cons p requests =>
      simp only [Link.next, Option.ite_none_right_eq_some, Option.some.injEq,
        Prod.mk.injEq] at h
      obtain ⟨-, rfl, rfl, rfl⟩ := h
      simp [Link.work]
  | handle n r =>
    cases r with
    | itemInfo x =>
      simp only [Link.next] at h
      cases h
      simp [Link.work, requestWork]
    | lock x =>
      simp only [Link.next] at h
      split at h <;> cases h <;> simp [Link.work, requestWork]
    | writeData r =>
      cases r <;> simp only [Link.next] at h <;> cases h <;> simp [Link.work, requestWork]
  | unlock n x =>
    simp only [Link.next] at h
    cases h
    simp [Link.work]

/-- A thread with requests left can go on: the next one is of the type it waits for. -/
theorem Inv.exists_next (h : Inv cfg items s) (hi : i < cfg.SERVER_CNT)
    (hleft : ¬(s.links c i).Processed) : ∃ l' rm' es,
      (s.links c i).next cfg c i (s.resManagers i) = some (l', rm', es) := by
  have hlink := (h.clients c).links i hi
  have hcount := (h.clients c).count
  have hopened : (s.managers c).opened i ≤ (s.managers c).trx_num := by
    simp only [TrxManager.opened]
    split
    · split <;> omega
    · exact le_rfl
  have hfollows := hlink.follows
  have hopen := hlink.opened
  rw [Link.next]
  cases hpc : (s.links c i).pc with
  | receive t =>
    cases hrequests : (s.links c i).requests with
    | nil => exact absurd ⟨hrequests, t, hpc⟩ hleft
    | cons p requests =>
      simp only [Link.expects, hpc, hrequests] at hfollows
      have hround := hfollows.1
      have hopening : t = .itemInfo → (s.links c i).trx_num < cfg.TRANSACTION_CNT := by
        rintro rfl
        simp only [Link.openings, hrequests, List.countP_cons, hround, decide_true,
          if_true] at hopen
        omega
      simpa [hround] using hopening
  | handle n r =>
    cases r with
    | itemInfo x => simp
    | lock x => simp only; split <;> simp
    | writeData r => cases r <;> simp
  | unlock n x => simp

/-- The operations that are left to all threads. -/
def State.work (cfg : Config) (s : State) : ℕ :=
  ∑ c ∈ Finset.range cfg.CLIENTS_CNT, ∑ i ∈ Finset.range cfg.SERVER_CNT, (s.links c i).work

theorem State.work_afterThread (hc : c < cfg.CLIENTS_CNT) (hi : i < cfg.SERVER_CNT)
    (hwork : l.work < (s.links c i).work) : (s.afterThread c i l rm es).work cfg < s.work cfg := by
  have hle (c' i' : ℕ) : ((s.afterThread c i l rm es).links c' i').work ≤ (s.links c' i').work := by
    by_cases hcc : c' = c
    · subst hcc
      by_cases hii : i' = i
      · subst hii
        simpa [State.afterThread] using hwork.le
      · simp [State.afterThread, hii]
    · simp [State.afterThread, hcc]
  refine Finset.sum_lt_sum (fun c' _ => Finset.sum_le_sum fun i' _ => hle c' i')
    ⟨c, Finset.mem_range.2 hc, Finset.sum_lt_sum (fun i' _ => hle c i')
      ⟨i, Finset.mem_range.2 hi, ?_⟩⟩
  simpa [State.afterThread] using hwork

/-- The threads of the resource managers process all requests that were sent. -/
theorem exists_processed (h : Inv cfg items s) :
    ∃ s', ThreadsLead cfg s s' ∧ s'.Processed cfg := by
  induction hn : s.work cfg using Nat.strong_induction_on generalizing s with
  | _ n ih =>
    by_cases hprocessed : s.Processed cfg
    · exact ⟨s, .start rfl, hprocessed⟩
    · simp only [State.Processed, not_forall] at hprocessed
      obtain ⟨c, hc, i, hi, hleft⟩ := hprocessed
      obtain ⟨l, rm, es, hnext⟩ := h.exists_next hi hleft
      have hstep : step cfg s (.thread c i) = some (s.afterThread c i l rm es) := by
        simp [step, State.thread, hc, hi, hnext]
        rfl
      have hlt : (s.afterThread c i l rm es).work cfg < s.work cfg :=
        State.work_afterThread hc hi (Link.work_next hnext)
      obtain ⟨s', hs', hs'processed⟩ := ih _ (hn ▸ hlt) (h.thread hc hi hnext) rfl
      refine ⟨s', ?_, hs'processed⟩
      refine Transition.ReachableBy.trans ?_ hs'
      rintro _ rfl
      exact .next (.start rfl) ⟨c, i, rfl⟩ hstep

end Drain

/-- **Two-phase commit.** In every state of every run the protocol is atomic, and the resource
managers can process all requests that were sent. -/
theorem commit_protocol_atomic (cfg : Config) (items : ℕ → Int32 → ItemVersion) {s : State}
    (h : Reachable cfg items s) :
    s.Atomic cfg items ∧ ∃ s', ThreadsLead cfg s s' ∧ s'.Processed cfg :=
  ⟨(inv_of_reachable h).atomic, exists_processed (inv_of_reachable h)⟩

/-- Two clients want item 3 of the first of two resource managers. Client 0 gets the lock and
commits, client 1 is refused and aborts, and both are answered. -/
def contention : List Action :=
  let managers (c n : ℕ) := List.replicate n (Action.manager c)
  let threads (c n : ℕ) := List.replicate n (.thread c 0) ++ List.replicate n (.thread c 1)
  [.submit 0 [⟨3, 2, 0⟩, ⟨4, 1, 1⟩], .submit 1 [⟨3, 5, 0⟩, ⟨6, 1, 1⟩]] ++
    managers 0 3 ++ threads 0 2 ++ managers 0 6 ++ threads 0 2 ++ managers 0 6 ++
    managers 1 3 ++ threads 1 2 ++ managers 1 6 ++ threads 1 2 ++ managers 1 7 ++
    threads 1 2 ++ threads 0 3 ++ managers 0 1

def State.loaded : State where
  timestamp := 0
  managers _ := ⟨.readCommitRequest, 0, [], fun _ => 0, fun _ => false, false, 0⟩
  links _ _ := ⟨[], [], .receive .itemInfo, 0⟩
  resManagers _ := ⟨fun _ => ⟨0, 50⟩, fun _ => false⟩
  trace := []

set_option maxRecDepth 100000 in
theorem commit_protocol_atomic_contention :
    ∃ s, Reachable ⟨2, 2, 1⟩ (fun _ _ => ⟨0, 50⟩) s ∧
      (.answered ⟨0, 1⟩ [⟨3, 2, 0⟩, ⟨4, 1, 1⟩] .COMMITTED ∈ s.trace ∧
        .answered ⟨1, 1⟩ [⟨3, 5, 0⟩, ⟨6, 1, 1⟩] .ABORTED ∈ s.trace) ∧
      s.Atomic ⟨2, 2, 1⟩ (fun _ _ => ⟨0, 50⟩) := by
  have hinit : Init (fun _ _ => ⟨0, 50⟩) State.loaded :=
    ⟨fun _ => ⟨rfl, rfl⟩, fun _ _ => rfl, fun _ => rfl, rfl⟩
  obtain ⟨s, hs, hanswered⟩ := Transition.exists_reachableBy (step ⟨2, 2, 1⟩) (fun _ _ => True)
    hinit contention (fun s => .answered ⟨0, 1⟩ [⟨3, 2, 0⟩, ⟨4, 1, 1⟩] .COMMITTED ∈ s.trace ∧
      .answered ⟨1, 1⟩ [⟨3, 5, 0⟩, ⟨6, 1, 1⟩] .ABORTED ∈ s.trace) (by decide +kernel)
  exact ⟨s, hs, hanswered, (commit_protocol_atomic _ _ hs).1⟩

end RdmaSnapshot.TPCW.TwoSided
