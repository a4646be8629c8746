import MBusMeter.Firmware.Stream
import MBusMeter.Lib.Machine

/-!
# Sequences of reads

The reads of `stream.c` share one position. Seven of them have one limit, what
is left in the stream, and check it before they touch anything; so each either
does all it was asked for or nothing. `stream_get_buffer` has a second limit,
what its destination can still take, and does not look at the answer of the
function that checks it: when the bytes are there and the room is not, it
answers true and moves on over bytes that nobody got.

A read is called with the place it writes to, so that what a call leaves there
can be compared with what was there before. Over a sequence of calls the bytes
found in those places, in order, are the front of the buffer up to the
position, as long as that case does not come up; and the first time it does is
a call that is not what it says.
-/

namespace MBusMeter.Proofs

open Lib Firmware

/-! ## Reads and what they write to -/

/-- A function of `stream.c`, with the length it is given. -/
inductive Operation where
  | get (len : Nat)
  | getBuffer (len : Nat)
  | getu8
  | get8
  | getu16Be
  | getu16Le
  | getu32Be
  | skip (nb : Nat)
  deriving DecidableEq, Repr

namespace Operation

/-- What `value` points to. For `stream_get` it is as many bytes as are asked
for; `stream_skip` has no `value`. -/
abbrev Dest : Operation → Type
  | get _ => List UInt8
  | getBuffer _ => Buffer
  | getu8 => UInt8
  | get8 => Int8
  | getu16Be => UInt16
  | getu16Le => UInt16
  | getu32Be => UInt32
  | skip _ => PUnit

def width : Operation → Nat
  | get len => len
  | getBuffer len => len
  | getu8 => 1
  | get8 => 1
  | getu16Be => 2
  | getu16Le => 2
  | getu32Be => 4
  | skip nb => nb

end Operation

/-- A read whose value is written through a pointer when there is one. -/
def into {α : Type} (m : Proc Fault Firmware.Stream α) :
    Proc Fault (Firmware.Stream × α) PUnit :=
  ⟨fun (stream, value) =>
    match m stream with
    | .ok read stream' => .ok ⟨⟩ (stream', read)
    | .fail stream' => .fail (stream', value)
    | .fault cause stream' => .fault cause (stream', value)⟩

/-- The call of the function. -/
def Operation.call :
    (op : Operation) → Proc Fault (Firmware.Stream × op.Dest) PUnit
  | get len => into (streamGet len)
  | getBuffer len => streamGetBuffer len
  | getu8 => into streamGetu8
  | get8 => into streamGet8
  | getu16Be => into streamGetu16Be
  | getu16Le => into streamGetu16Le
  | getu32Be => into streamGetu32Be
  | skip nb => into (streamSkip nb)

/-- The number some bytes are, the first of them on top. -/
def bigEndian (bytes : List UInt8) : Nat :=
  bytes.foldl (fun n byte => 256 * n + byte.toNat) 0

/-- The bytes have been delivered: what was at the destination and what is
there now differ by them. -/
def Operation.Delivers :
    (op : Operation) → List UInt8 → (before after : op.Dest) → Prop
  | get _, bytes, _, (after : List UInt8) => after = bytes
  | getBuffer _, bytes, (before : Buffer), (after : Buffer) =>
      after.bytes = before.bytes ++ bytes
  | getu8, bytes, _, (after : UInt8) => after.toNat = bigEndian bytes
  | get8, bytes, _, (after : Int8) =>
      after.toUInt8.toNat = bigEndian bytes
  | getu16Be, bytes, _, (after : UInt16) => after.toNat = bigEndian bytes
  | getu16Le, bytes, _, (after : UInt16) =>
      after.toNat = bigEndian bytes.reverse
  | getu32Be, bytes, _, (after : UInt32) => after.toNat = bigEndian bytes
  | skip _, _, _, _ => True

/-- What there is of the stream at the destination, or was skipped, after a
call that returned true. -/
def Operation.delivered :
    (op : Operation) → Firmware.Stream → (before after : op.Dest) → List UInt8
  | get _, _, _, (after : List UInt8) => after
  | getBuffer _, _, (before : Buffer), (after : Buffer) =>
      after.bytes.drop before.len
  | getu8, _, _, (after : UInt8) => [after]
  | get8, _, _, (after : Int8) => [after.toUInt8]
  | getu16Be, _, _, (after : UInt16) => bytes16 after
  | getu16Le, _, _, (after : UInt16) => (bytes16 after).reverse
  | getu32Be, _, _, (after : UInt32) => bytes32 after
  | skip nb, stream, _, _ => stream.rest.take nb

/-- A call in a sequence, with what is at its destination before it. -/
structure ReadCall where
  op : Operation
  dest : op.Dest

/-- One call: the stream behind it, and the bytes it delivered or skipped. -/
def readStep (stream : Firmware.Stream) (c : ReadCall) :
    Firmware.Stream × List UInt8 :=
  let o := c.op.call (stream, c.dest)
  (o.state.1,
    if o.succeeded then c.op.delivered stream c.dest o.state.2 else [])

/-! ## What is asked of them -/

/-- A call is all or nothing: false, and stream and destination are as they
were, or true, and the position has moved by the width of the read and the
bytes it moved over are at the destination. -/
def AllOrNothing (stream : Firmware.Stream) (c : ReadCall) : Prop :=
  match c.op.call (stream, c.dest) with
  | .ok _ (stream', after) =>
      stream'.buffer = stream.buffer ∧
        stream'.pos = stream.pos + c.op.width ∧
        c.op.Delivers (stream.rest.take c.op.width) c.dest after
  | .fail left => left = (stream, c.dest)
  | .fault _ _ => False

/-- Every call of the sequence is all or nothing, the position never leaves
the buffer, and what was delivered or skipped is the front of the buffer. -/
structure ReadsWhole (buffer : Buffer) (calls : List ReadCall) : Prop where
  each : ∀ pre c post, calls = pre ++ c :: post →
    AllOrNothing (after readStep (streamReset buffer) pre) c
  inside : ∀ pre post, calls = pre ++ post →
    (after readStep (streamReset buffer) pre).buffer = buffer ∧
      (after readStep (streamReset buffer) pre).pos ≤ buffer.len
  front : (outputs readStep (streamReset buffer) calls).flatten =
    buffer.bytes.take (after readStep (streamReset buffer) calls).pos

/-- The call copies bytes that are there into a buffer that has no room for
them. -/
def Overfills (stream : Firmware.Stream) : ReadCall → Prop
  | ⟨.getBuffer len, (dest : Buffer)⟩ =>
      len ≤ stream.rest.length ∧ BUFFER_SIZE < dest.len + len
  | _ => False

/-- No call of the sequence does. -/
def NeverOverfills (buffer : Buffer) (calls : List ReadCall) : Prop :=
  ∀ pre c post, calls = pre ++ c :: post →
    ¬ Overfills (after readStep (streamReset buffer) pre) c

/-! ## One call -/

theorem advance_pos {stream : Firmware.Stream} {n : Nat}
    (h : n ≤ stream.rest.length) : (stream.advance n).pos = stream.pos + n := by
  have hpos := stream.pos_le
  rw [Stream.rest_length] at h
  show min (stream.pos + n) stream.buffer.len = _
  omega

theorem into_of_ok {α : Type} {m : Proc Fault Firmware.Stream α}
    {stream stream' : Firmware.Stream} {a dest : α}
    (h : m stream = .ok a stream') :
    into m (stream, dest) = .ok ⟨⟩ (stream', a) := by
  simp only [into, h]

theorem into_of_fail {α : Type} {m : Proc Fault Firmware.Stream α}
    {stream stream' : Firmware.Stream} {dest : α}
    (h : m stream = .fail stream') :
    into m (stream, dest) = .fail (stream', dest) := by
  simp only [into, h]

/-- The reads with one limit are all or nothing, if the value they make of
their bytes is what it should be. -/
theorem allOrNothing_read {op : Operation} {value : (Nat → UInt8) → op.Dest}
    (hcall : op.call = into (streamRead op.width value))
    {stream : Firmware.Stream} {dest : op.Dest}
    (hvalue : op.width ≤ stream.rest.length →
      op.Delivers (stream.rest.take op.width) dest
        (value fun i => stream.rest.getD i 0)) :
    AllOrNothing stream ⟨op, dest⟩ := by
  simp only [AllOrNothing, hcall]
  by_cases h : op.width ≤ stream.rest.length
  · rw [into_of_ok (streamRead_eq.trans (if_pos h))]
    exact ⟨rfl, advance_pos h, hvalue h⟩
  · rw [into_of_fail (streamRead_of_lt (Nat.not_le.mp h))]

/-! A list that is long enough, by its first elements. -/

theorem exists_one {α : Type} {l : List α} (h : 1 ≤ l.length) :
    ∃ a r, l = a :: r :=
  List.exists_cons_of_length_pos h

theorem exists_two {α : Type} {l : List α} (h : 2 ≤ l.length) :
    ∃ a b r, l = a :: b :: r := by
  obtain ⟨a, r, rfl⟩ := exists_one (Nat.le_of_succ_le h)
  obtain ⟨b, r, rfl⟩ := exists_one (Nat.le_of_succ_le_succ h)
  exact ⟨a, b, r, rfl⟩

theorem exists_four {α : Type} {l : List α} (h : 4 ≤ l.length) :
    ∃ a b c d r, l = a :: b :: c :: d :: r := by
  obtain ⟨a, b, r, rfl⟩ := exists_two (Nat.le_trans (by decide) h)
  obtain ⟨c, d, r, rfl⟩ :=
    exists_two (Nat.le_of_succ_le_succ (Nat.le_of_succ_le_succ h))
  exact ⟨a, b, c, d, r, rfl⟩

theorem bigEndian_one (a : UInt8) : bigEndian [a] = a.toNat := by
  simp [bigEndian]

theorem bigEndian_two (a b : UInt8) :
    bigEndian [a, b] = (word16 a b).toNat := by
  rw [word16_toNat]
  simp [bigEndian]

theorem bigEndian_four (a b c d : UInt8) :
    bigEndian [a, b, c, d] = (word32 a b c d).toNat := by
  rw [word32_toNat]
  simp only [bigEndian, List.foldl_cons, List.foldl_nil]
  omega

theorem streamGetBuffer_of_lt (stream : Firmware.Stream) (value : Buffer)
    {n : Nat} (h : stream.rest.length < n) :
    streamGetBuffer n (stream, value) = .fail (stream, value) := by
  have hpos := stream.pos_le
  rw [Stream.rest_length] at h
  unfold streamGetBuffer
  dsimp only
  rw [dif_pos (by omega)]

/-- A copy is all or nothing as long as there is room, or nothing to copy. -/
theorem getBuffer_allOrNothing_iff (stream : Firmware.Stream) (len : Nat)
    (dest : Buffer) :
    AllOrNothing stream ⟨.getBuffer len, dest⟩ ↔
      ¬ (len ≤ stream.rest.length ∧ BUFFER_SIZE < dest.len + len) := by
  have hdest := dest.len_le_size
  simp only [AllOrNothing, Operation.call]
  by_cases hlen : len ≤ stream.rest.length
  · have htake : (stream.rest.take len).length = len :=
      List.length_take_of_le hlen
    rw [streamGetBuffer_of_le stream dest hlen]
    simp only [Operation.width, Operation.Delivers]
    constructor
    · rintro ⟨_, _, hdelivered⟩ ⟨_, hover⟩
      rw [Buffer.store_of_full (by omega)] at hdelivered
      have hnil := List.self_eq_append_right.mp hdelivered
      rw [hnil, List.length_nil] at htake
      omega
    · intro hroom
      exact ⟨rfl, advance_pos hlen, Buffer.store_bytes (by omega)⟩
  · rw [streamGetBuffer_of_lt stream dest (Nat.not_le.mp hlen)]
    exact ⟨fun _ h => hlen h.1, fun _ => rfl⟩

/-- The reads with one limit never overfill anything, and are as they should
be. -/
theorem plain_allOrNothing_iff {op : Operation}
    {value : (Nat → UInt8) → op.Dest}
    (hcall : op.call = into (streamRead op.width value))
    {stream : Firmware.Stream} {dest : op.Dest}
    (hover : ¬ Overfills stream ⟨op, dest⟩)
    (hvalue : op.width ≤ stream.rest.length →
      op.Delivers (stream.rest.take op.width) dest
        (value fun i => stream.rest.getD i 0)) :
    AllOrNothing stream ⟨op, dest⟩ ↔ ¬ Overfills stream ⟨op, dest⟩ :=
  iff_of_true (allOrNothing_read hcall hvalue) hover

theorem allOrNothing_iff (stream : Firmware.Stream) (c : ReadCall) :
    AllOrNothing stream c ↔ ¬ Overfills stream c := by
  obtain ⟨op, dest⟩ := c
  cases op with
  | getBuffer len => exact getBuffer_allOrNothing_iff stream len dest
  | get len =>
      refine plain_allOrNothing_iff rfl not_false fun h => ?_
      exact range_map_getD h
  | getu8 =>
      refine plain_allOrNothing_iff rfl not_false fun h => ?_
      obtain ⟨a, r, hrest⟩ := exists_one h
      rw [hrest]
      exact (bigEndian_one a).symm
  | get8 =>
      refine plain_allOrNothing_iff rfl not_false fun h => ?_
      obtain ⟨a, r, hrest⟩ := exists_one h
      rw [hrest]
      exact (bigEndian_one a).symm
  | getu16Be =>
      refine plain_allOrNothing_iff rfl not_false fun h => ?_
      obtain ⟨a, b, r, hrest⟩ := exists_two h
      rw [hrest]
      exact (bigEndian_two a b).symm
  | getu16Le =>
      refine plain_allOrNothing_iff rfl not_false fun h => ?_
      obtain ⟨a, b, r, hrest⟩ := exists_two h
      rw [hrest]
      exact (bigEndian_two b a).symm
  | getu32Be =>
      refine plain_allOrNothing_iff rfl not_false fun h => ?_
      obtain ⟨a, b, c, d, r, hrest⟩ := exists_four h
      rw [hrest]
      exact (bigEndian_four a b c d).symm
  | skip nb => exact plain_allOrNothing_iff rfl not_false fun _ => trivial

/-! ## What was delivered -/

theorem bytes16_of_bigEndian {w : UInt16} {a b : UInt8}
    (h : w.toNat = bigEndian [a, b]) : bytes16 w = [a, b] := by
  rw [bigEndian_two] at h
  rw [UInt16.toNat_inj.mp h, bytes16_word16]

/-- Delivered bytes can be found at the destination. -/
theorem delivered_eq {op : Operation} {stream : Firmware.Stream}
    {before after : op.Dest} (hwidth : op.width ≤ stream.rest.length)
    (h : op.Delivers (stream.rest.take op.width) before after) :
    op.delivered stream before after = stream.rest.take op.width := by
  cases op with
  | get len => exact h
  | getBuffer len =>
      show (Buffer.bytes after).drop (Buffer.len before) = _
      rw [show (Buffer.bytes after) = _ from h, Buffer.len, List.drop_left]
  | getu8 =>
      obtain ⟨a, r, hrest⟩ := exists_one hwidth
      rw [hrest] at h ⊢
      have hbyte := UInt8.toNat_inj.mp (h.trans (bigEndian_one a))
      exact congrArg (fun b => [b]) hbyte
  | get8 =>
      obtain ⟨a, r, hrest⟩ := exists_one hwidth
      rw [hrest] at h ⊢
      have hbyte := UInt8.toNat_inj.mp (h.trans (bigEndian_one a))
      exact congrArg (fun b => [b]) hbyte
  | getu16Be =>
      obtain ⟨a, b, r, hrest⟩ := exists_two hwidth
      rw [hrest] at h ⊢
      exact bytes16_of_bigEndian h
  | getu16Le =>
      obtain ⟨a, b, r, hrest⟩ := exists_two hwidth
      rw [hrest] at h ⊢
      exact congrArg List.reverse (@bytes16_of_bigEndian after b a h)
  | getu32Be =>
      obtain ⟨a, b, c, d, r, hrest⟩ := exists_four hwidth
      rw [hrest] at h ⊢
      have hword : (after : UInt32) = word32 a b c d :=
        UInt32.toNat_inj.mp (h.trans (bigEndian_four a b c d))
      show bytes32 (after : UInt32) = [a, b, c, d]
      rw [hword, bytes32_word32]
  | skip nb => rfl

/-- A call that is all or nothing takes what it delivers off the front of what
is left. -/
theorem AllOrNothing.step {stream : Firmware.Stream} {c : ReadCall}
    (h : AllOrNothing stream c) :
    (readStep stream c).1.buffer = stream.buffer ∧
      stream.rest = (readStep stream c).2 ++ (readStep stream c).1.rest := by
  rw [AllOrNothing] at h
  simp only [readStep]
  cases ho : c.op.call (stream, c.dest) with
  | ok value left =>
      rw [ho] at h
      obtain ⟨stream', after⟩ := left
      obtain ⟨hbuffer, hpos, hdelivers⟩ := h
      have hle := stream'.pos_le
      have hwidth : c.op.width ≤ stream.rest.length := by
        rw [Stream.rest_length]
        rw [hbuffer, hpos] at hle
        omega
      have hrest : stream'.rest = stream.rest.drop c.op.width := by
        rw [Stream.rest, Stream.rest, hbuffer, hpos, List.drop_drop]
      refine ⟨hbuffer, ?_⟩
      show stream.rest = c.op.delivered stream c.dest after ++ stream'.rest
      rw [delivered_eq hwidth hdelivers, hrest, List.take_append_drop]
  | fail left =>
      rw [ho] at h
      have hleft : left = (stream, c.dest) := h
      rw [hleft]
      exact ⟨rfl, rfl⟩
  | fault cause left => rw [ho] at h; exact h.elim

/-! ## Sequences of calls -/

/-- And so does a sequence of them. -/
theorem reads_rest (calls : List ReadCall) :
    ∀ stream, (∀ pre c post, calls = pre ++ c :: post →
        AllOrNothing (after readStep stream pre) c) →
      (after readStep stream calls).buffer = stream.buffer ∧
        stream.rest = (outputs readStep stream calls).flatten ++
          (after readStep stream calls).rest := by
  induction calls with
  | nil => exact fun stream _ => ⟨rfl, rfl⟩
  | cons c calls ih =>
      intro stream h
      have hstep : AllOrNothing stream c := h [] c calls rfl
      obtain ⟨hbuffer, hrest⟩ := hstep.step
      obtain ⟨hbuffer', hrest'⟩ := ih (readStep stream c).1
        fun pre d post hsplit => h (c :: pre) d post (congrArg (c :: ·) hsplit)
      refine ⟨hbuffer'.trans hbuffer, ?_⟩
      rw [outputs_cons, after_cons, List.flatten_cons, List.append_assoc,
        ← hrest', ← hrest]

/-- A sequence of reads is what it says exactly when no copy in it is given a
destination without room for bytes that are there. -/
theorem readsWhole_iff (buffer : Buffer) (calls : List ReadCall) :
    ReadsWhole buffer calls ↔ NeverOverfills buffer calls := by
  constructor
  · intro h pre c post hsplit
    exact (allOrNothing_iff _ c).mp (h.each pre c post hsplit)
  · intro h
    have heach : ∀ pre c post, calls = pre ++ c :: post →
        AllOrNothing (after readStep (streamReset buffer) pre) c :=
      fun pre c post hsplit => (allOrNothing_iff _ c).mpr (h pre c post hsplit)
    refine ⟨heach, fun pre post hsplit => ?_, ?_⟩
    · obtain ⟨hbuffer, _⟩ := reads_rest pre (streamReset buffer)
        fun pre' c post' hpre => heach pre' c (post' ++ post) (by
          rw [hsplit, hpre, List.append_assoc, List.cons_append])
      have hpos := (after readStep (streamReset buffer) pre).pos_le
      exact ⟨hbuffer, by rw [hbuffer] at hpos; exact hpos⟩
    · obtain ⟨hbuffer, hrest⟩ := reads_rest calls (streamReset buffer) heach
      rw [streamReset_rest, Stream.rest, hbuffer] at hrest
      exact List.append_cancel_right
        (hrest.symm.trans (List.take_append_drop _ _).symm)

/-- One byte is asked for and is there, and the destination is full: the call
returns true and has moved past the byte, and the destination is as it was. -/
theorem not_readsWhole_of_full {buffer dest : Buffer} (hpos : 1 ≤ buffer.len)
    (hfull : dest.len = BUFFER_SIZE) :
    ¬ ReadsWhole buffer [⟨.getBuffer 1, dest⟩] := by
  intro h
  have hright : AllOrNothing (streamReset buffer) ⟨.getBuffer 1, dest⟩ :=
    h.each [] _ [] rfl
  refine (getBuffer_allOrNothing_iff _ 1 dest).mp hright ⟨hpos, ?_⟩
  rw [hfull]
  exact Nat.lt_succ_self BUFFER_SIZE

theorem fullDestination_not_readsWhole :
    ¬ ∀ (buffer : Buffer) (calls : List ReadCall), ReadsWhole buffer calls :=
  fun hall => @not_readsWhole_of_full ⟨[0x42], by decide⟩
    ⟨List.replicate BUFFER_SIZE 0, Nat.le_of_eq List.length_replicate⟩
    (Nat.le_refl 1) List.length_replicate (hall _ _)

end MBusMeter.Proofs
