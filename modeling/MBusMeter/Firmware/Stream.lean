import MBusMeter.Firmware.Buffer
import MBusMeter.Lib.Word

/-!
# Reading a buffer front to back (`stream.c`)

A stream is a buffer and a position that never leaves it. The eight reads of
the source differ in how many bytes they take and what they make of them;
what they share, the check from above, the value and the move, is
`streamRead`, and every read is that definition at its own width. The
exception is `stream_get_buffer`, whose length is a signed argument and whose
bytes go into a second buffer that may refuse them.

The argument checks of the source (`!stream || !value`) guard against null
pointers, which no caller passes and the model does not have.

What a decoder sees of a stream is `rest`, the bytes it has not read yet. The
lemmas below restate every read as a function of `rest`.
-/

namespace MBusMeter.Firmware

open Lib

structure Stream where
  buffer : Buffer
  pos : Nat
  pos_le : pos ≤ buffer.len
  deriving DecidableEq, Repr

def streamReset (buffer : Buffer) : Stream := ⟨buffer, 0, Nat.zero_le _⟩

/-- The body the reads share: the check, the value out of the bytes from
`pos` on, the move. -/
def streamRead {α : Type} (width : Nat) (value : (Nat → UInt8) → α) :
    Proc Fault Stream α :=
  ⟨fun stream =>
    if h : stream.pos + width > stream.buffer.len then .fail stream
    else
      .ok (value fun i => stream.buffer.byte (stream.pos + i))
        { stream with pos := stream.pos + width, pos_le := Nat.not_lt.mp h }⟩

def streamGet (len : Nat) : Proc Fault Stream (List UInt8) :=
  streamRead len fun byte => (List.range len).map byte

def streamGetu8 : Proc Fault Stream UInt8 := streamRead 1 fun byte => byte 0

/-- `stream_get8`: the same byte read as a signed number. -/
def streamGet8 : Proc Fault Stream Int8 :=
  streamRead 1 fun byte => (byte 0).toInt8

def streamGetu16Be : Proc Fault Stream UInt16 :=
  streamRead 2 fun byte => ((byte 0).toUInt16 <<< 8) ||| (byte 1).toUInt16

/-- `stream_getu32_be`: the shifts are on `int`, and the result is taken
modulo 2^32. A byte that is shifted into the sign bit is taken as the compiler
of `sdkconfig`, gcc, defines it: the bits are moved. -/
def streamGetu32Be : Proc Fault Stream UInt32 :=
  streamRead 4 fun byte =>
    ((byte 0).toUInt32 <<< 24) ||| ((byte 1).toUInt32 <<< 16) |||
      ((byte 2).toUInt32 <<< 8) ||| (byte 3).toUInt32

def streamGetu16Le : Proc Fault Stream UInt16 :=
  streamRead 2 fun byte => ((byte 1).toUInt16 <<< 8) ||| (byte 0).toUInt16

def streamSkip (nb : Nat) : Proc Fault Stream PUnit :=
  streamRead nb fun _ => ⟨⟩

def streamRemains (stream : Stream) : Int := stream.buffer.len - stream.pos

/-- `stream_get_buffer`, on the stream and the buffer it copies into. The
answer of `buffer_add_bytes` is not looked at. -/
def streamGetBuffer (len : Int) : Proc Fault (Stream × Buffer) PUnit :=
  ⟨fun (stream, value) =>
    if h : stream.pos + len > stream.buffer.len then .fail (stream, value)
    else
      (bufferAddBytes (stream.buffer.bytes.drop stream.pos) len value).ignored
        |>.mapState (Prod.mk stream)
        |>.andThen fun _ => Proc.update fun p =>
          ({ stream with pos := (stream.pos + len).toNat, pos_le := by omega },
            p.2)⟩

/-! ## What is left to read -/

/-- The bytes not read yet. -/
def Stream.rest (stream : Stream) : List UInt8 :=
  stream.buffer.bytes.drop stream.pos

/-- The stream `n` bytes further on, or at the end. -/
def Stream.advance (stream : Stream) (n : Nat) : Stream :=
  { stream with
    pos := min (stream.pos + n) stream.buffer.len
    pos_le := Nat.min_le_right _ _ }

theorem Stream.ext {a b : Stream} (hb : a.buffer = b.buffer)
    (hp : a.pos = b.pos) : a = b := by
  cases a
  cases b
  cases hb
  cases hp
  rfl

theorem Stream.rest_length (stream : Stream) :
    stream.rest.length = stream.buffer.len - stream.pos := by
  rw [Stream.rest, List.length_drop, Buffer.len]

@[simp] theorem streamReset_rest (buffer : Buffer) :
    (streamReset buffer).rest = buffer.bytes := rfl

@[simp] theorem Stream.advance_buffer (stream : Stream) (n : Nat) :
    (stream.advance n).buffer = stream.buffer := rfl

theorem Stream.advance_rest (stream : Stream) (n : Nat) :
    (stream.advance n).rest = stream.rest.drop n := by
  show stream.buffer.bytes.drop (min (stream.pos + n) stream.buffer.len) =
    (stream.buffer.bytes.drop stream.pos).drop n
  rw [List.drop_drop]
  rcases Nat.le_total (stream.pos + n) stream.buffer.len with h | h
  · rw [Nat.min_eq_left h]
  · rw [Nat.min_eq_right h, Buffer.len, List.drop_length,
      List.drop_eq_nil_of_le h]

theorem Stream.advance_rest_append {stream : Stream} {l r : List UInt8}
    (h : stream.rest = l ++ r) : (stream.advance l.length).rest = r := by
  rw [Stream.advance_rest, h, List.drop_left]

theorem Stream.advance_one_rest {stream : Stream} {a : UInt8} {r : List UInt8}
    (h : stream.rest = a :: r) : (stream.advance 1).rest = r :=
  @Stream.advance_rest_append stream [a] r h

theorem Stream.advance_two_rest {stream : Stream} {a b : UInt8}
    {r : List UInt8} (h : stream.rest = a :: b :: r) :
    (stream.advance 2).rest = r :=
  @Stream.advance_rest_append stream [a, b] r h

theorem Stream.advance_four_rest {stream : Stream} {a b c d : UInt8}
    {r : List UInt8} (h : stream.rest = a :: b :: c :: d :: r) :
    (stream.advance 4).rest = r :=
  @Stream.advance_rest_append stream [a, b, c, d] r h

theorem streamRemains_eq (stream : Stream) :
    streamRemains stream = (stream.rest.length : Int) := by
  have hpos := stream.pos_le
  rw [streamRemains, Stream.rest_length]
  omega

/-- Every read, as a function of what is left. -/
theorem streamRead_eq {α : Type} {width : Nat} {value : (Nat → UInt8) → α}
    {stream : Stream} :
    streamRead width value stream =
      if width ≤ stream.rest.length then
        .ok (value fun i => stream.rest.getD i 0) (stream.advance width)
      else .fail stream := by
  have hlen := stream.rest_length
  have hpos := stream.pos_le
  unfold streamRead
  dsimp only
  split
  · next hover => rw [if_neg (by omega)]
  · next hfits =>
      rw [if_pos (by omega)]
      congr 1
      · congr 1
        funext i
        rw [Buffer.byte, Stream.rest, List.getD_eq_getElem?_getD,
          List.getD_eq_getElem?_getD, List.getElem?_drop]
      · exact Stream.ext rfl (Nat.min_eq_left (Nat.not_lt.mp hfits)).symm

theorem streamRead_of_lt {α : Type} {width : Nat} {value : (Nat → UInt8) → α}
    {stream : Stream} (h : stream.rest.length < width) :
    streamRead width value stream = .fail stream := by
  rw [streamRead_eq, if_neg (Nat.not_le.mpr h)]

theorem streamGetu8_nil {stream : Stream} (h : stream.rest = []) :
    streamGetu8 stream = .fail stream :=
  streamRead_of_lt (by rw [h]; exact Nat.zero_lt_one)

theorem streamGetu8_cons {stream : Stream} {b : UInt8} {r : List UInt8}
    (h : stream.rest = b :: r) :
    streamGetu8 stream = .ok b (stream.advance 1) := by
  rw [streamGetu8, streamRead_eq, h, if_pos (by simp)]
  rfl

theorem streamGet8_cons {stream : Stream} {b : UInt8} {r : List UInt8}
    (h : stream.rest = b :: r) :
    streamGet8 stream = .ok b.toInt8 (stream.advance 1) := by
  rw [streamGet8, streamRead_eq, h, if_pos (by simp)]
  rfl

theorem streamGetu16Be_of_lt {stream : Stream} (h : stream.rest.length < 2) :
    streamGetu16Be stream = .fail stream := streamRead_of_lt h

theorem streamGetu16Be_cons {stream : Stream} {a b : UInt8} {r : List UInt8}
    (h : stream.rest = a :: b :: r) :
    streamGetu16Be stream = .ok (word16 a b) (stream.advance 2) := by
  rw [streamGetu16Be, streamRead_eq, h, if_pos (by simp)]
  rfl

theorem streamGetu32Be_cons {stream : Stream} {a b c d : UInt8}
    {r : List UInt8} (h : stream.rest = a :: b :: c :: d :: r) :
    streamGetu32Be stream = .ok (word32 a b c d) (stream.advance 4) := by
  rw [streamGetu32Be, streamRead_eq, h, if_pos (by simp)]
  rfl

theorem streamGetu16Le_of_lt {stream : Stream} (h : stream.rest.length < 2) :
    streamGetu16Le stream = .fail stream := streamRead_of_lt h

theorem streamGetu16Le_cons {stream : Stream} {a b : UInt8} {r : List UInt8}
    (h : stream.rest = a :: b :: r) :
    streamGetu16Le stream = .ok (word16 b a) (stream.advance 2) := by
  rw [streamGetu16Le, streamRead_eq, h, if_pos (by simp)]
  rfl

theorem streamSkip_of_le {stream : Stream} {n : Nat}
    (h : n ≤ stream.rest.length) :
    streamSkip n stream = .ok ⟨⟩ (stream.advance n) := by
  rw [streamSkip, streamRead_eq, if_pos h]

theorem streamSkip_of_lt {stream : Stream} {n : Nat}
    (h : stream.rest.length < n) : streamSkip n stream = .fail stream :=
  streamRead_of_lt h

theorem range_map_getD {n : Nat} {l : List UInt8} (h : n ≤ l.length) :
    (List.range n).map (fun i => l.getD i 0) = l.take n := by
  apply List.ext_getElem
  · rw [List.length_map, List.length_range, List.length_take_of_le h]
  · intro i h₁ h₂
    rw [List.length_map, List.length_range] at h₁
    rw [List.getElem_map, List.getElem_range, List.getElem_take,
      List.getD_eq_getElem?_getD, List.getElem?_eq_getElem (by omega),
      Option.getD_some]

theorem streamGet_append {stream : Stream} {l r : List UInt8}
    (h : stream.rest = l ++ r) :
    streamGet l.length stream = .ok l (stream.advance l.length) := by
  have hle : l.length ≤ stream.rest.length := by simp [h]
  rw [streamGet, streamRead_eq, if_pos hle, range_map_getD hle, h,
    List.take_left]

/-- A copy that the stream can serve: the stream moves on whether or not the
destination took the bytes. -/
theorem streamGetBuffer_of_le (stream : Stream) (value : Buffer) {n : Nat}
    (h : n ≤ stream.rest.length) :
    streamGetBuffer n (stream, value) =
      .ok ⟨⟩ (stream.advance n, value.store (stream.rest.take n)) := by
  have hlen := stream.rest_length
  have hpos := stream.pos_le
  unfold streamGetBuffer
  dsimp only
  rw [dif_neg (by omega),
    bufferAddBytes_ignored value (stream.buffer.bytes.drop stream.pos) h]
  simp only [Outcome.mapState_ok, Outcome.ok_andThen, Proc.update_apply]
  congr 2
  refine Stream.ext rfl ?_
  show (stream.pos + (n : Int)).toNat = min (stream.pos + n) stream.buffer.len
  omega

/-- A negative length passes both checks and is handed to `memcpy`. -/
theorem streamGetBuffer_neg {stream : Stream} {value : Buffer} {len : Int}
    (hneg : len < 0) :
    streamGetBuffer len (stream, value) =
      .fault .copyLength (stream, value) := by
  have hpos := stream.pos_le
  unfold streamGetBuffer
  dsimp only
  rw [dif_neg (by omega), bufferAddBytes_neg hneg]
  rfl

end MBusMeter.Firmware
