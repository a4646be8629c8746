import MBusMeter.Lib.Proc

/-!
# Byte buffers (`buffer.c`)

A buffer is the valid part of a fixed array: the bytes up to `len`, never more
than `BUFFER_SIZE` of them. What lies in the array past `len` is never read,
so it is not part of the model.

`buffer_add_bytes` takes its length as a signed `int` and checks it from above
only. A negative length passes the check and reaches `memcpy`, where it turns
into a `size_t` of nearly the whole address space; the model gives that copy
no result and calls it a fault.
-/

namespace MBusMeter.Firmware

open Lib

/-- What the firmware can do that C gives no meaning to. `callDepth` is the
model's own: a recursion or a loop that went on for longer than it was given
room for. -/
inductive Fault where
  | copyLength
  | fieldIndex
  | callDepth
  deriving DecidableEq, Repr

def BUFFER_SIZE : Nat := 1024

/-- `Buffer`, up to its `len`. -/
structure Buffer where
  bytes : List UInt8
  len_le : bytes.length ≤ BUFFER_SIZE
  deriving DecidableEq, Repr

/-- `buffer->len`. -/
def Buffer.len (buffer : Buffer) : Nat := buffer.bytes.length

/-- `buffer->bytes[i]`, for an `i` below `len`. -/
def Buffer.byte (buffer : Buffer) (i : Nat) : UInt8 := buffer.bytes.getD i 0

/-- `buffer_reset`: what the buffer held does not matter. -/
def bufferReset (_ : Buffer) : Buffer := ⟨[], Nat.zero_le _⟩

/-- `buffer_add_byte`: its answer and the buffer it leaves. -/
def bufferAddByte (buffer : Buffer) (byte : UInt8) : Bool × Buffer :=
  if h : buffer.len ≥ BUFFER_SIZE then (false, buffer)
  else (true, ⟨buffer.bytes ++ [byte], by
    simp only [Buffer.len, List.length_append, List.length_singleton] at h ⊢
    omega⟩)

/-- What `memcpy` copies from `src`, when the length is one it can copy. -/
def memcpy (src : List UInt8) (len : Int) : Option (List UInt8) :=
  if 0 ≤ len ∧ len ≤ src.length then some (src.take len.toNat) else none

theorem memcpy_length {src copied : List UInt8} {len : Int}
    (h : memcpy src len = some copied) : (copied.length : Int) = len := by
  unfold memcpy at h
  split at h
  · next hlen =>
      injection h with h
      subst h
      rw [List.length_take]
      omega
  · cases h

def bufferAddBytes (bytes : List UInt8) (len : Int) : Proc Fault Buffer PUnit :=
  ⟨fun buffer =>
    if h : buffer.len + len > BUFFER_SIZE then .fail buffer
    else
      match hc : memcpy bytes len with
      | some copied => .ok ⟨⟩ ⟨buffer.bytes ++ copied, by
          have hlen := memcpy_length hc
          rw [List.length_append]
          simp only [Buffer.len] at h
          omega⟩
      | none => .fault .copyLength buffer⟩

/-- The buffer after some bytes were offered to it and it took them whole or
not at all. -/
def Buffer.store (buffer : Buffer) (data : List UInt8) : Buffer :=
  if h : buffer.len + data.length ≤ BUFFER_SIZE then
    ⟨buffer.bytes ++ data, by rw [List.length_append]; exact h⟩
  else buffer

@[ext] theorem Buffer.ext {a b : Buffer} (h : a.bytes = b.bytes) : a = b := by
  cases a
  cases b
  cases h
  rfl

theorem Buffer.len_le_size (buffer : Buffer) : buffer.len ≤ BUFFER_SIZE :=
  buffer.len_le

@[simp] theorem bufferReset_len (buffer : Buffer) :
    (bufferReset buffer).len = 0 := rfl

theorem bufferAddByte_of_lt {buffer : Buffer} {byte : UInt8}
    (h : buffer.len < BUFFER_SIZE) :
    (bufferAddByte buffer byte).1 = true ∧
      (bufferAddByte buffer byte).2.bytes = buffer.bytes ++ [byte] := by
  unfold bufferAddByte
  rw [dif_neg (Nat.not_le.mpr h)]
  exact ⟨rfl, rfl⟩

theorem bufferAddByte_of_full {buffer : Buffer} {byte : UInt8}
    (h : buffer.len ≥ BUFFER_SIZE) :
    bufferAddByte buffer byte = (false, buffer) := by
  unfold bufferAddByte
  rw [dif_pos h]

theorem Buffer.store_bytes {buffer : Buffer} {data : List UInt8}
    (h : buffer.len + data.length ≤ BUFFER_SIZE) :
    (buffer.store data).bytes = buffer.bytes ++ data := by
  unfold Buffer.store
  rw [dif_pos h]

theorem Buffer.store_of_full {buffer : Buffer} {data : List UInt8}
    (h : ¬ buffer.len + data.length ≤ BUFFER_SIZE) :
    buffer.store data = buffer := by
  unfold Buffer.store
  rw [dif_neg h]

/-- Bytes that can be copied are stored, or refused whole. Only the answer
tells the two apart. -/
theorem bufferAddBytes_ignored (buffer : Buffer) (bytes : List UInt8) {n : Nat}
    (hn : n ≤ bytes.length) :
    (bufferAddBytes bytes n buffer).ignored =
      .ok ⟨⟩ (buffer.store (bytes.take n)) := by
  have hlen : (bytes.take n).length = n := by rw [List.length_take]; omega
  have hcopy : memcpy bytes n = some (bytes.take n) := by
    unfold memcpy
    rw [if_pos ⟨by omega, by omega⟩]
    rfl
  unfold bufferAddBytes
  dsimp only
  split
  · next hfull =>
      rw [Buffer.store_of_full (by omega)]
      rfl
  · next hfits =>
      split
      · next copied hc =>
          have hcopied : copied = bytes.take n :=
            Option.some.inj (hc.symm.trans hcopy)
          subst hcopied
          rw [Outcome.ignored_ok]
          congr 1
          apply Buffer.ext
          rw [Buffer.store_bytes (by omega)]
      · next hc => rw [hcopy] at hc; cases hc

/-- A negative length gets past the check and into `memcpy`. -/
theorem bufferAddBytes_neg {buffer : Buffer} {bytes : List UInt8} {len : Int}
    (hneg : len < 0) :
    bufferAddBytes bytes len buffer = .fault .copyLength buffer := by
  have hle := buffer.len_le_size
  have hcopy : memcpy bytes len = none := by
    unfold memcpy
    rw [if_neg (by omega)]
  unfold bufferAddBytes
  dsimp only
  rw [dif_neg (by omega)]
  split
  · next copied hc => rw [hcopy] at hc; cases hc
  · rfl

end MBusMeter.Firmware
