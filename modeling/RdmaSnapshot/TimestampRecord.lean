import Mathlib.Data.List.Induction
import RdmaSnapshot.Timestamp

/-!
# Timestamps and their abstract record

A `Timestamp` packs two flags into its lock status byte. Here a timestamp is compared with the
record of its five components: programs construct named timestamps, change them and copy them into
each other, and the observers are compared with the components of the record that the same program
builds.

The byte does represent both flags: every program computes the packed form of the record. But
`isLocked` compares all the masked bits with one, so on a deleted and locked word it answers false.
-/

namespace RdmaSnapshot

structure TimestampRecord where
  deleted : Bool
  locked : Bool
  offset : UInt8
  client : ClientID
  ts : UInt32
  deriving DecidableEq

namespace TimestampRecord

/-- The word whose components are those of the record. -/
def pack (r : TimestampRecord) : Timestamp :=
  .setAll r.deleted r.locked r.offset r.client r.ts

theorem markDeleted_pack (r : TimestampRecord) :
    r.pack.markDeleted = pack { r with deleted := true } := by
  obtain ⟨d, l, o, c, t⟩ := r
  cases d <;> cases l <;>
    simp only [pack, Timestamp.setAll, Timestamp.markDeleted, Timestamp.mk.injEq, true_and,
      and_true] <;> decide

theorem markLocked_pack (r : TimestampRecord) :
    r.pack.markLocked = pack { r with locked := true } := by
  obtain ⟨d, l, o, c, t⟩ := r
  cases d <;> cases l <;>
    simp only [pack, Timestamp.setAll, Timestamp.markLocked, Timestamp.mk.injEq, true_and,
      and_true] <;> decide

theorem markUnlocked_pack (r : TimestampRecord) :
    r.pack.markUnlocked = pack { r with locked := false } := by
  obtain ⟨d, l, o, c, t⟩ := r
  cases d <;> cases l <;>
    simp only [pack, Timestamp.setAll, Timestamp.markUnlocked, Timestamp.mk.injEq, true_and,
      and_true] <;> decide

/-- The observers of a timestamp return the components of a record. -/
structure Observes (w : Timestamp) (r : TimestampRecord) : Prop where
  isDeleted : w.isDeleted = r.deleted
  isLocked : w.isLocked = r.locked
  getVersionOffset : w.versionOffset = r.offset
  getClientID : w.clientID = r.client
  getTimestamp : w.timestamp = r.ts

/-- The two flags are not set at once. -/
def FlagsApart (r : TimestampRecord) : Prop := ¬ (r.deleted = true ∧ r.locked = true)

instance (r : TimestampRecord) : Decidable r.FlagsApart := inferInstanceAs (Decidable (¬ _))

theorem observes_pack_iff (r : TimestampRecord) : Observes r.pack r ↔ r.FlagsApart := by
  constructor
  · rintro h ⟨hd, hl⟩
    have hlocked := h.isLocked
    rw [pack, Timestamp.isLocked_setAll, hd, hl] at hlocked
    cases hlocked
  · intro h
    refine ⟨Timestamp.isDeleted_setAll .., ?_, rfl, rfl, rfl⟩
    rw [pack, Timestamp.isLocked_setAll]
    rw [FlagsApart] at h
    cases hd : r.deleted
    · exact Bool.and_true _
    · cases hl : r.locked
      · rfl
      · exact absurd ⟨hd, hl⟩ h

end TimestampRecord

/-! ## Programs -/

/-- The operations of a type of timestamps, packed or not. -/
structure TimestampOps (T : Type) where
  /-- The five-argument constructor, and `setAll`. -/
  setAll : Bool → Bool → UInt8 → ClientID → UInt32 → T
  markDeleted : T → T
  markLocked : T → T
  markUnlocked : T → T
  setClientID : T → ClientID → T
  setTimestamp : T → UInt32 → T

def Timestamp.ops : TimestampOps Timestamp where
  setAll := setAll
  markDeleted := markDeleted
  markLocked := markLocked
  markUnlocked := markUnlocked
  setClientID := setClientID
  setTimestamp := setTimestamp

/-- The operations on records: each sets the component it is named after. -/
def TimestampRecord.ops : TimestampOps TimestampRecord where
  setAll := .mk
  markDeleted r := { r with deleted := true }
  markLocked r := { r with locked := true }
  markUnlocked r := { r with locked := false }
  setClientID r client := { r with client := client }
  setTimestamp r ts := { r with ts := ts }

/-- A call in a program over timestamps named by `X`. -/
inductive TimestampCall (X : Type)
  /-- The constructor of a new `x`; the default constructor is the one with
  `true, false, 0, 0, 0`. -/
  | construct (x : X) (isDeleted isLocked : Bool) (versionOffset : UInt8) (clientID : ClientID)
      (timestamp : UInt32)
  | setAll (x : X) (isDeleted isLocked : Bool) (versionOffset : UInt8) (clientID : ClientID)
      (timestamp : UInt32)
  | markDeleted (x : X)
  | markLocked (x : X)
  | markUnlocked (x : X)
  | setClientID (x : X) (clientID : ClientID)
  | setTimestamp (x : X) (timestamp : UInt32)
  /-- `x.copy(original)`. -/
  | copy (x original : X)

/-- The timestamps that exist, by name. -/
abbrev Objects (X T : Type) := X → Option T

namespace TimestampCall

variable {X T T' : Type} [DecidableEq X]

/-- A member function changes `x`, if it exists. -/
def modify (objects : Objects X T) (x : X) (f : T → T) : Objects X T :=
  Function.update objects x ((objects x).map f)

def apply (O : TimestampOps T) (objects : Objects X T) : TimestampCall X → Objects X T
  | construct x d l o c t => Function.update objects x (some (O.setAll d l o c t))
  | setAll x d l o c t => modify objects x fun _ => O.setAll d l o c t
  | markDeleted x => modify objects x O.markDeleted
  | markLocked x => modify objects x O.markLocked
  | markUnlocked x => modify objects x O.markUnlocked
  | setClientID x c => modify objects x fun v => O.setClientID v c
  | setTimestamp x t => modify objects x fun v => O.setTimestamp v t
  | copy x original =>
    match objects original with
    | some v => modify objects x fun _ => v
    | none => objects

def run (O : TimestampOps T) (ops : List (TimestampCall X)) : Objects X T :=
  ops.foldl (apply O) fun _ => none

@[simp] theorem run_nil (O : TimestampOps T) :
    run O ([] : List (TimestampCall X)) = fun _ => none := rfl

theorem run_concat (O : TimestampOps T) (ops : List (TimestampCall X)) (op : TimestampCall X) :
    run O (ops ++ [op]) = op.apply O (run O ops) := by
  rw [run, List.foldl_append]
  rfl

/-! ## Refinement -/

theorem modify_map {φ : T' → T} {f : T → T} {f' : T' → T'} (objects : Objects X T') (x : X)
    (hf : ∀ v, f (φ v) = φ (f' v)) :
    modify (fun y => (objects y).map φ) x f = fun y => (modify objects x f' y).map φ := by
  funext y
  unfold modify
  rcases eq_or_ne y x with rfl | hy
  · rw [Function.update_self, Function.update_self, Option.map_map, Option.map_map]
    exact congrArg (fun g => (objects y).map g) (funext hf)
  · rw [Function.update_of_ne hy, Function.update_of_ne hy]

theorem apply_pack (objects : Objects X TimestampRecord) (op : TimestampCall X) :
    op.apply Timestamp.ops (fun x => (objects x).map TimestampRecord.pack) =
      fun x => (op.apply TimestampRecord.ops objects x).map TimestampRecord.pack := by
  cases op with
  | construct x d l o c t =>
    funext y
    simp only [apply, Function.update_apply]
    split <;> rfl
  | setAll x d l o c t =>
    refine modify_map objects x fun _ => ?_
    rfl
  | markDeleted x => exact modify_map objects x TimestampRecord.markDeleted_pack
  | markLocked x => exact modify_map objects x TimestampRecord.markLocked_pack
  | markUnlocked x => exact modify_map objects x TimestampRecord.markUnlocked_pack
  | setClientID x c =>
    refine modify_map objects x fun _ => ?_
    rfl
  | setTimestamp x t =>
    refine modify_map objects x fun _ => ?_
    rfl
  | copy x original =>
    simp only [apply]
    cases objects original with
    | none => rfl
    | some v =>
      refine modify_map objects x fun _ => ?_
      rfl

/-- A program on timestamps computes the packed form of what it computes on records. -/
theorem run_pack (ops : List (TimestampCall X)) (x : X) :
    run Timestamp.ops ops x = (run TimestampRecord.ops ops x).map TimestampRecord.pack := by
  -- induction on the last call
  induction ops using List.reverseRecOn generalizing x with
  | nil => rfl
  | append_singleton ops op ih =>
    rw [run_concat, run_concat, funext ih, apply_pack]

/-- After a program, the observers of every timestamp return the components of its record. -/
def Observed (ops : List (TimestampCall X)) : Prop :=
  ∀ x r, run TimestampRecord.ops ops x = some r →
    ∃ w, run Timestamp.ops ops x = some w ∧ TimestampRecord.Observes w r

/-- The observers are right after a program unless a record is deleted and locked. -/
theorem observed_iff (ops : List (TimestampCall X)) :
    Observed ops ↔ ∀ x r, run TimestampRecord.ops ops x = some r → r.FlagsApart := by
  constructor
  · intro h x r hr
    obtain ⟨w, hw, hobs⟩ := h x r hr
    rw [run_pack, hr, Option.map_some, Option.some.injEq] at hw
    rw [← hw] at hobs
    exact r.observes_pack_iff.1 hobs
  · intro h x r hr
    refine ⟨r.pack, ?_, r.observes_pack_iff.2 (h x r hr)⟩
    rw [run_pack, hr, Option.map_some]

/-! ## Programs that keep the flags apart -/

/-- A call does not set one flag where the other is set: the condition is on its arguments and on
the records before it. -/
def KeepsApart (objects : Objects X TimestampRecord) : TimestampCall X → Prop
  | construct _ d l _ _ _ => ¬ (d = true ∧ l = true)
  | setAll x d l _ _ _ => (objects x).isSome → ¬ (d = true ∧ l = true)
  | markDeleted x => ∀ r, objects x = some r → r.locked = false
  | markLocked x => ∀ r, objects x = some r → r.deleted = false
  | _ => True

def AllApart (objects : Objects X TimestampRecord) : Prop :=
  ∀ x r, objects x = some r → r.FlagsApart

theorem allApart_modify_iff {objects : Objects X TimestampRecord} (h : AllApart objects) (x : X)
    (f : TimestampRecord → TimestampRecord) :
    AllApart (modify objects x f) ↔ ∀ r, objects x = some r → (f r).FlagsApart := by
  constructor
  · intro hall r hr
    refine hall x (f r) ?_
    rw [modify, Function.update_self, hr, Option.map_some]
  · intro hf y r hr
    unfold modify at hr
    rcases eq_or_ne y x with rfl | hy
    · rw [Function.update_self] at hr
      obtain ⟨v, hv, rfl⟩ := Option.map_eq_some_iff.1 hr
      exact hf v hv
    · rw [Function.update_of_ne hy] at hr
      exact h y r hr

theorem allApart_apply_iff {objects : Objects X TimestampRecord} (h : AllApart objects)
    (op : TimestampCall X) : AllApart (op.apply TimestampRecord.ops objects) ↔
      op.KeepsApart objects := by
  cases op with
  | construct x d l o c t =>
    constructor
    · intro hall
      exact hall x ⟨d, l, o, c, t⟩ (Function.update_self ..)
    · intro hdl y r hr
      simp only [apply] at hr
      rcases eq_or_ne y x with rfl | hy
      · rw [Function.update_self] at hr
        cases hr
        exact hdl
      · rw [Function.update_of_ne hy] at hr
        exact h y r hr
  | setAll x d l o c t =>
    rw [apply, allApart_modify_iff h]
    simp only [KeepsApart, Option.isSome_iff_exists, forall_exists_index]
    rfl
  | markDeleted x =>
    rw [apply, allApart_modify_iff h]
    simp [KeepsApart, TimestampRecord.FlagsApart, TimestampRecord.ops]
  | markLocked x =>
    rw [apply, allApart_modify_iff h]
    simp [KeepsApart, TimestampRecord.FlagsApart, TimestampRecord.ops]
  | markUnlocked x =>
    rw [apply, allApart_modify_iff h]
    simp [KeepsApart, TimestampRecord.FlagsApart, TimestampRecord.ops]
  | setClientID x c =>
    rw [apply, allApart_modify_iff h]
    exact ⟨fun _ => trivial, fun _ r hr => h x r hr⟩
  | setTimestamp x t =>
    rw [apply, allApart_modify_iff h]
    exact ⟨fun _ => trivial, fun _ r hr => h x r hr⟩
  | copy x original =>
    refine ⟨fun _ => trivial, fun _ => ?_⟩
    simp only [apply]
    cases ho : objects original with
    | none => exact h
    | some v => exact (allApart_modify_iff h x _).2 fun _ _ => h original v ho

def AllKeepApart (ops : List (TimestampCall X)) : Prop :=
  ∀ before op after, ops = before ++ op :: after →
    op.KeepsApart (run TimestampRecord.ops before)

theorem allKeepApart_concat (ops : List (TimestampCall X)) (op : TimestampCall X) :
    AllKeepApart (ops ++ [op]) ↔
      AllKeepApart ops ∧ op.KeepsApart (run TimestampRecord.ops ops) := by
  constructor
  · intro h
    refine ⟨fun before op' after heq => ?_, h ops op [] rfl⟩
    exact h before op' (after ++ [op]) (by rw [heq]; simp)
  · rintro ⟨h, hop⟩ before op' after heq
    rcases List.eq_nil_or_concat after with rfl | ⟨after, last, rfl⟩
    · obtain ⟨rfl, hlast⟩ := List.append_inj' heq rfl
      cases hlast
      exact hop
    · rw [List.concat_eq_append, ← List.cons_append, ← List.append_assoc] at heq
      exact h before op' after (List.append_inj' heq rfl).1

/-- **Refinement of the record.** The observers return the components of the records throughout a
program exactly if no call sets one of the flags of a timestamp whose other flag is set. -/
theorem observed_iff_keepsApart (ops : List (TimestampCall X)) :
    (∀ before after, ops = before ++ after → Observed before) ↔ AllKeepApart ops := by
  -- induction on the last call, which is the only one that the longer program adds
  induction ops using List.reverseRecOn with
  | nil =>
    constructor
    · intro _ before op after heq
      simp at heq
    · intro _ before after heq x r hr
      obtain ⟨rfl, rfl⟩ := List.append_eq_nil_iff.1 heq.symm
      cases hr
  | append_singleton ops op ih =>
    rw [allKeepApart_concat, ← ih]
    constructor
    · intro h
      have hbefore : ∀ before after, ops = before ++ after → Observed before := by
        intro before after heq
        exact h before (after ++ [op]) (by rw [heq, List.append_assoc])
      refine ⟨hbefore, ?_⟩
      have hall : AllApart (run TimestampRecord.ops ops) :=
        (observed_iff ops).1 (hbefore ops [] (List.append_nil ops).symm)
      rw [← allApart_apply_iff hall, ← run_concat]
      exact (observed_iff _).1 (h (ops ++ [op]) [] (List.append_nil _).symm)
    · rintro ⟨hbefore, hop⟩ before after heq
      rcases List.eq_nil_or_concat after with rfl | ⟨after, last, rfl⟩
      · rw [List.append_nil] at heq
        have hall : AllApart (run TimestampRecord.ops ops) :=
          (observed_iff ops).1 (hbefore ops [] (List.append_nil ops).symm)
        rw [← heq, observed_iff, run_concat]
        exact (allApart_apply_iff hall op).2 hop
      · rw [List.concat_eq_append, ← List.append_assoc] at heq
        exact hbefore before after (List.append_inj' heq rfl).1

theorem not_observed_deleted_locked :
    ¬ Observed [construct () true false 2 12 24, markLocked ()] := by
  intro h
  have := (observed_iff _).1 h () ⟨true, true, 2, 12, 24⟩ rfl
  exact this ⟨rfl, rfl⟩

end TimestampCall

end RdmaSnapshot
