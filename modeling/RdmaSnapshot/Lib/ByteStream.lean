import Mathlib.Data.List.Basic

/-!
# Messages on a byte stream

A stream delivers the bytes written to it in order but does not keep the boundaries between
writes. A channel records, besides the bytes in transit, the messages written and the structures
read. A read of `k` bytes overwrites the first `k` bytes of its buffer; the rest of the buffer
stays as it was.
-/

namespace ByteStream

variable {α κ : Type*}

/-! ## Structs -/

/-- A struct of `sizeof` bytes whose fields hold an `α`. A store leaves padding, and members of a
union that it does not name, as they were. -/
structure Struct (α : Type*) where
  sizeof : ℕ
  store : α → List UInt8 → List UInt8
  load : List UInt8 → α
  length_store : ∀ a b, b.length = sizeof → (store a b).length = sizeof
  load_store : ∀ a b, b.length = sizeof → load (store a b) = a

/-- A struct whose fields are stored to its first bytes. -/
def Struct.leading (sizeof : ℕ) (encode : α → List UInt8) (decode : List UInt8 → α)
    (hlength : ∀ a, (encode a).length ≤ sizeof)
    (hdecode : ∀ a rest, decode (encode a ++ rest) = a) : Struct α where
  sizeof := sizeof
  store a b := encode a ++ b.drop (encode a).length
  load := decode
  length_store a b hb := by
    have := hlength a
    simp only [List.length_append, List.length_drop]
    omega
  load_store a b _ := hdecode a _

/-! ## Channels -/

/-- A message: the struct it is an instance of, and its bytes. -/
structure Message (κ : Type*) where
  kind : κ
  bytes : List UInt8
  deriving DecidableEq

/-- One direction of a connection, with the history of its two ends. -/
structure Channel (κ : Type*) where
  sent : List (Message κ)
  received : List (Message κ)
  stream : List UInt8

/-- A buffer after a read of the first `k` bytes of a stream. -/
def fill (buffer stream : List UInt8) (k : ℕ) : List UInt8 := stream.take k ++ buffer.drop k

theorem length_fill {buffer stream : List UInt8} {k : ℕ} (hs : k ≤ stream.length)
    (hb : k ≤ buffer.length) : (fill buffer stream k).length = buffer.length := by
  simp only [fill, List.length_append, List.length_take, List.length_drop]
  omega

namespace Channel

def empty : Channel κ := ⟨[], [], []⟩

def write (ch : Channel κ) (m : Message κ) : Channel κ :=
  { ch with sent := ch.sent ++ [m], stream := ch.stream ++ m.bytes }

/-- A `read` of `k` bytes into the buffer of a struct of kind `kind`. -/
def read (ch : Channel κ) (kind : κ) (buffer : List UInt8) (k : ℕ) : Channel κ :=
  { ch with
    received := ch.received ++ [⟨kind, fill buffer ch.stream k⟩]
    stream := ch.stream.drop k }

end Channel

/-! ## Framing -/

/-- The `n`th message written is of kind `seq n` and as long as its kind, and the messages read
are the first ones written. -/
structure Framed (size : κ → ℕ) (seq : ℕ → κ) (ch : Channel κ) : Prop where
  pending : ∃ p, ch.sent = ch.received ++ p ∧ ch.stream = p.flatMap Message.bytes
  kind : ∀ n m, ch.sent[n]? = some m → m.kind = seq n
  length : ∀ m ∈ ch.sent, m.bytes.length = size m.kind

namespace Framed

variable {size : κ → ℕ} {seq : ℕ → κ} {ch : Channel κ}

theorem empty : Framed size seq .empty where
  pending := ⟨[], rfl, rfl⟩
  kind n m h := by simp [Channel.empty] at h
  length m h := by simp [Channel.empty] at h

theorem isPrefix_sent (h : Framed size seq ch) : ch.received <+: ch.sent := by
  obtain ⟨p, hsent, -⟩ := h.pending
  exact ⟨p, hsent.symm⟩

theorem write (h : Framed size seq ch) {m : Message κ} (hkind : m.kind = seq ch.sent.length)
    (hlength : m.bytes.length = size m.kind) : Framed size seq (ch.write m) where
  pending := by
    obtain ⟨p, hsent, hstream⟩ := h.pending
    refine ⟨p ++ [m], ?_, ?_⟩
    · simp [Channel.write, hsent]
    · simp [Channel.write, hstream]
  kind n m' hm' := by
    simp only [Channel.write, List.getElem?_append] at hm'
    split at hm'
    · exact h.kind n m' hm'
    · rename_i hn
      obtain ⟨hzero, rfl⟩ : n - ch.sent.length = 0 ∧ m = m' := by
        simpa [List.getElem?_singleton] using hm'
      rw [hkind, show n = ch.sent.length by omega]
  length m' hm' := by
    rcases List.mem_append.1 hm' with hm' | hm'
    · exact h.length m' hm'
    · rwa [List.mem_singleton.1 hm']

/-- The next message, when there are bytes to read. -/
theorem exists_next (h : Framed size seq ch) (hne : ch.stream ≠ []) :
    ∃ m p, ch.sent = ch.received ++ m :: p ∧ ch.stream = m.bytes ++ p.flatMap Message.bytes ∧
      m.kind = seq ch.received.length ∧ m.bytes.length = size m.kind := by
  obtain ⟨p, hsent, hstream⟩ := h.pending
  cases p with
  | nil => exact absurd hstream hne
  | cons m p =>
    refine ⟨m, p, hsent, hstream, h.kind _ m ?_, h.length m ?_⟩
    · simp [hsent]
    · simp [hsent]

/-- A read of as many bytes as the expected struct takes reads the next message. -/
theorem read (h : Framed size seq ch) {kind : κ} {buffer : List UInt8}
    (hkind : kind = seq ch.received.length) (hbuffer : buffer.length = size kind)
    (hne : ch.stream ≠ []) : Framed size seq (ch.read kind buffer (size kind)) where
  pending := by
    obtain ⟨m, p, hsent, hstream, hm, hlength⟩ := h.exists_next hne
    obtain rfl : m.kind = kind := hm.trans hkind.symm
    have hfill : fill buffer ch.stream (size m.kind) = m.bytes := by
      rw [fill, hstream, ← hlength, List.take_left, List.drop_eq_nil_of_le (by omega),
        List.append_nil]
    refine ⟨p, ?_, ?_⟩
    · simp [Channel.read, hfill, hsent]
    · rw [Channel.read, hstream, ← hlength, List.drop_left]
  kind := h.kind
  length := h.length

end Framed

end ByteStream
