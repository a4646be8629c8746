import MBusMeter.Proofs.HdlcPacket
import MBusMeter.Spec.Line

/-!
# Runs of the frame decoder

The state in the middle of a frame is a function of the bytes of the frame
that have arrived, `collecting`; the only other states are those that search
for a flag with nothing collected. So what a byte does can be said in terms of
the frame so far: it belongs to it, it closes it, or the frame is given up.

Flag bytes bring any state to the boundary between two frames. At most they
are taken for the rest of one frame first, the one that is being collected, and
that takes at most as many of them as the buffer holds.
-/

namespace MBusMeter.Proofs

open Lib Firmware Firmware.HdlcFrame Spec

/-- What `expectedLen` is set to by the first byte of a frame. -/
def lengthHigh (first : UInt8) : Int32 :=
  ((first.toUInt16 &&& 0x07) <<< 8).toUInt32.toInt32

/-- The state after the bytes of an unfinished frame. -/
def collecting (buffer : Buffer) : FrameState :=
  match buffer.bytes with
  | [] => { state := .waitType, buffer, expectedLen := 0 }
  | [first] =>
      { state := .waitLen, buffer, expectedLen := lengthHigh first }
  | first :: second :: _ =>
      { state := .data
        buffer
        expectedLen := lengthHigh first ||| second.toUInt32.toInt32 }

/-- The state between two frames. -/
def boundary : FrameState := collecting ⟨[], Nat.zero_le _⟩

/-- Waiting for a flag. -/
def Searching (f : FrameState) : Prop :=
  f.state = .waitSync ∧ f.buffer.bytes = []

theorem collecting_nil {buffer : Buffer} (h : buffer.bytes = []) :
    collecting buffer = boundary := by
  have hbuffer : buffer = ⟨[], Nat.zero_le _⟩ := Buffer.ext h
  rw [hbuffer, boundary]

theorem collecting_single {buffer : Buffer} {first : UInt8}
    (h : buffer.bytes = [first]) :
    collecting buffer =
      { state := .waitLen, buffer, expectedLen := lengthHigh first } := by
  rw [collecting, h]

theorem collecting_data {buffer : Buffer} {first second : UInt8}
    {rest : List UInt8} (h : buffer.bytes = first :: second :: rest) :
    collecting buffer =
      { state := .data
        buffer
        expectedLen := lengthHigh first ||| second.toUInt32.toInt32 } := by
  rw [collecting, h]

theorem collecting_buffer (buffer : Buffer) :
    (collecting buffer).buffer = buffer := by
  rw [collecting]
  split <;> rfl

theorem toInt32_toInt {w : UInt32} (h : w.toNat < 2048) :
    w.toInt32.toInt = w.toNat := by
  have hlt : 2 * w.toBitVec.toNat < 4294967296 := by
    show 2 * w.toNat < _
    omega
  show w.toBitVec.toInt = _
  exact BitVec.toInt_eq_toNat_of_lt hlt

theorem frameLength_lt (first second : UInt8) :
    frameLength first second < 2048 := by
  have hlt := second.toNat_lt
  rw [frameLength]
  omega

/-- The length the decoder puts together. -/
theorem expectedLen_eq (first second : UInt8) :
    (lengthHigh first ||| second.toUInt32.toInt32).toInt =
      frameLength first second := by
  have hword : lengthHigh first ||| second.toUInt32.toInt32 =
      (((first.toUInt16 &&& 0x07) <<< 8) |||
        second.toUInt16).toUInt32.toInt32 := by
    rw [lengthHigh, ← UInt32.toInt32_or, UInt16.toUInt32_or,
      UInt8.toUInt32_toUInt16]
  have hlen := long_length first second
  have hlt := frameLength_lt first second
  rw [frameLength] at hlt ⊢
  rw [hword, toInt32_toInt (by rw [UInt16.toNat_toUInt32]; omega),
    UInt16.toNat_toUInt32, hlen]

/-! ## One byte -/

theorem addByte_of_bytes {buffer next : Buffer} {byte : UInt8}
    (h : next.bytes = buffer.bytes ++ [byte]) :
    bufferAddByte buffer byte = (true, next) := by
  have hle := next.len_le
  rw [h, List.length_append, List.length_singleton] at hle
  obtain ⟨hret, hbytes⟩ := @bufferAddByte_of_lt buffer byte hle
  exact Prod.ext hret (Buffer.ext (hbytes.trans h.symm))

theorem type_byte (b : UInt8) : b &&& 0xF0 = 0xA0 ↔ b.toNat / 16 = 0xA := by
  revert b
  exact forall_byte (by decide +kernel)

theorem handleByte_searching {f : FrameState} (h : Searching f) :
    hdlcHandleByte f FLAG_BYTE = (boundary, none) := by
  rw [hdlcHandleByte, h.1]
  rfl

theorem handleByte_searching_other {f : FrameState} {byte : UInt8}
    (h : Searching f) (hne : byte ≠ FLAG_BYTE) :
    hdlcHandleByte f byte = (f, none) := by
  rw [hdlcHandleByte, h.1]
  exact if_neg hne

theorem handleByte_idle :
    hdlcHandleByte boundary FLAG_BYTE = (boundary, none) := rfl

theorem handleByte_open {byte : UInt8} {next : Buffer}
    (htype : byte.toNat / 16 = 0xA) (hnext : next.bytes = [byte]) :
    hdlcHandleByte boundary byte = (collecting next, none) := by
  have hflag : byte ≠ 0x7E := by
    rintro rfl
    exact absurd htype (by decide)
  have hadd : bufferAddByte boundary.buffer byte = (true, next) :=
    addByte_of_bytes hnext
  rw [hdlcHandleByte, collecting_single hnext]
  show (if byte = 0x7E then _ else _) = _
  rw [if_neg hflag, if_pos ((type_byte byte).mpr htype), hadd]
  rfl

theorem handleByte_falseStart {byte : UInt8} (hflag : byte ≠ FLAG_BYTE)
    (htype : byte.toNat / 16 ≠ 0xA) :
    hdlcHandleByte boundary byte =
      ({ boundary with state := .waitSync }, none) := by
  have hflag' : byte ≠ 0x7E := hflag
  rw [hdlcHandleByte]
  show (if byte = 0x7E then _ else _) = _
  rw [if_neg hflag', if_neg fun h => htype ((type_byte byte).mp h)]

theorem handleByte_second {buffer next : Buffer} {first byte : UInt8}
    (h : buffer.bytes = [first]) (hnext : next.bytes = [first, byte]) :
    hdlcHandleByte (collecting buffer) byte = (collecting next, none) := by
  have hadd : bufferAddByte buffer byte = (true, next) :=
    addByte_of_bytes (by rw [hnext, h]; rfl)
  rw [collecting_single h, collecting_data hnext, hdlcHandleByte]
  simp only [hadd]

/-- Behind the length, as long as bytes of the frame are missing. -/
theorem handleByte_data {buffer next : Buffer} {first second byte : UInt8}
    {rest : List UInt8} (h : buffer.bytes = first :: second :: rest)
    (hnext : next.bytes = buffer.bytes ++ [byte])
    (hlt : buffer.len < frameLength first second) :
    hdlcHandleByte (collecting buffer) byte = (collecting next, none) := by
  have hadd := addByte_of_bytes hnext
  have hlen := expectedLen_eq first second
  rw [collecting_data h, collecting_data (hnext.trans (by rw [h]; rfl)),
    hdlcHandleByte]
  simp only [hlen]
  rw [if_neg (by rintro ⟨_, heq⟩; omega), if_neg (by omega), hadd]

/-- The flag behind a whole frame. -/
theorem handleByte_close {buffer : Buffer} (h : IsFrame buffer.bytes) :
    hdlcHandleByte (collecting buffer) FLAG_BYTE =
      (boundary, some buffer) := by
  obtain ⟨first, second, rest, hbytes, _, hdeclared, _⟩ := h
  have hlen := expectedLen_eq first second
  have hpos : buffer.len > 0 := by
    rw [Buffer.len, hbytes]
    exact Nat.succ_pos _
  rw [collecting_data hbytes, hdlcHandleByte]
  simp only [hlen]
  rw [if_pos ⟨trivial, by rw [hdeclared, Buffer.len]⟩, if_pos hpos]
  rfl

/-- A frame that is longer than it says, or that the buffer does not hold, is
given up. -/
theorem handleByte_giveUp {buffer : Buffer} {first second byte : UInt8}
    {rest : List UInt8} (h : buffer.bytes = first :: second :: rest)
    (hlong : (byte = FLAG_BYTE → buffer.len ≠ frameLength first second) ∧
      (buffer.len < frameLength first second → buffer.len = BUFFER_SIZE)) :
    ∃ f, hdlcHandleByte (collecting buffer) byte = (f, none) ∧
      Searching f := by
  have hlen := expectedLen_eq first second
  rw [collecting_data h, hdlcHandleByte]
  simp only [hlen]
  rw [if_neg (by rintro ⟨hflag, heq⟩; exact hlong.1 hflag (by omega))]
  by_cases hge : (buffer.len : Int) ≥ (frameLength first second : Int)
  · rw [if_pos hge]
    exact ⟨_, rfl, rfl, rfl⟩
  · rw [if_neg hge, bufferAddByte_of_full
      (Nat.le_of_eq (hlong.2 (by omega)).symm)]
    exact ⟨_, rfl, rfl, rfl⟩

/-! ## Reachable states -/

/-- The bytes begin as a frame does, or there are none yet. -/
def Begun (bytes : List UInt8) : Prop :=
  ∀ first ∈ bytes.head?, first.toNat / 16 = 0xA

/-- The states there are. -/
def Tracked (f : FrameState) : Prop :=
  Searching f ∨ ∃ buffer, Begun buffer.bytes ∧ f = collecting buffer

theorem tracked_collecting {buffer : Buffer} (h : Begun buffer.bytes) :
    Tracked (collecting buffer) := Or.inr ⟨buffer, h, rfl⟩

theorem tracked_boundary : Tracked boundary := by
  refine tracked_collecting fun first hfirst => ?_
  cases hfirst

theorem Tracked.init (expectedLen : Int32) :
    Tracked (hdlcFrameInit expectedLen) := Or.inl ⟨rfl, rfl⟩

theorem Begun.append {bytes : List UInt8} (h : Begun bytes)
    (hne : bytes ≠ []) (more : List UInt8) : Begun (bytes ++ more) := by
  intro first hfirst
  rw [List.head?_append_of_ne_nil _ hne] at hfirst
  exact h first hfirst

/-- What a byte does between two frames. -/
theorem boundary_cases (byte : UInt8) :
    (byte = FLAG_BYTE ∧ hdlcHandleByte boundary byte = (boundary, none)) ∨
    (∃ next : Buffer, next.bytes = [byte] ∧ byte.toNat / 16 = 0xA ∧
      hdlcHandleByte boundary byte = (collecting next, none)) ∨
    (byte ≠ FLAG_BYTE ∧
      ∃ g, hdlcHandleByte boundary byte = (g, none) ∧ Searching g) := by
  by_cases hflag : byte = FLAG_BYTE
  · exact Or.inl ⟨hflag, by rw [hflag, handleByte_idle]⟩
  by_cases htype : byte.toNat / 16 = 0xA
  · have hnext : [byte].length ≤ BUFFER_SIZE := Nat.succ_le_succ (Nat.zero_le _)
    exact Or.inr (Or.inl ⟨⟨_, hnext⟩, rfl, htype,
      handleByte_open htype rfl⟩)
  · exact Or.inr (Or.inr ⟨hflag, _, handleByte_falseStart hflag htype,
      rfl, rfl⟩)

/-- What a byte does to an unfinished frame: it belongs to it, it closes it,
or the frame is given up. -/
theorem collecting_cases {buffer : Buffer} (hbegun : Begun buffer.bytes)
    (hne : buffer.bytes ≠ []) (byte : UInt8) :
    (∃ next : Buffer, next.bytes = buffer.bytes ++ [byte] ∧
      hdlcHandleByte (collecting buffer) byte = (collecting next, none)) ∨
    (byte = FLAG_BYTE ∧ IsFrame buffer.bytes ∧
      hdlcHandleByte (collecting buffer) byte = (boundary, some buffer)) ∨
    ∃ g, hdlcHandleByte (collecting buffer) byte = (g, none) ∧
      Searching g := by
  rcases hbytes : buffer.bytes with _ | ⟨first, _ | ⟨second, rest⟩⟩
  · exact absurd hbytes hne
  · have hnext : [first, byte].length ≤ BUFFER_SIZE :=
      Nat.succ_le_succ (Nat.succ_le_succ (Nat.zero_le _))
    exact Or.inl ⟨⟨_, hnext⟩, rfl, handleByte_second hbytes rfl⟩
  by_cases hgrow : buffer.len < frameLength first second ∧
      buffer.len < BUFFER_SIZE
  · have hnext : (buffer.bytes ++ [byte]).length ≤ BUFFER_SIZE := by
      rw [List.length_append]
      exact hgrow.2
    exact Or.inl ⟨⟨_, hnext⟩, congrArg (fun l => l ++ [byte]) hbytes,
      handleByte_data hbytes rfl hgrow.1⟩
  by_cases hclose : byte = FLAG_BYTE ∧ buffer.len = frameLength first second
  · have hframe : IsFrame buffer.bytes := by
      refine ⟨first, second, rest, hbytes, ?_, hclose.2.symm, buffer.len_le⟩
      rw [hbytes] at hbegun
      exact hbegun first rfl
    refine Or.inr (Or.inl ⟨hclose.1, by rw [← hbytes]; exact hframe, ?_⟩)
    rw [hclose.1, handleByte_close hframe]
  · have hle := buffer.len_le_size
    exact Or.inr (Or.inr (handleByte_giveUp hbytes
      ⟨fun hflag heq => hclose ⟨hflag, heq⟩, by omega⟩))

theorem begun_single {byte : UInt8} (htype : byte.toNat / 16 = 0xA) :
    Begun [byte] := by
  intro first hfirst
  cases hfirst
  exact htype

theorem Tracked.step {f : FrameState} (h : Tracked f) (byte : UInt8) :
    Tracked (hdlcHandleByte f byte).1 := by
  rcases h with hsearch | ⟨buffer, hbegun, rfl⟩
  · by_cases hflag : byte = FLAG_BYTE
    · rw [hflag, handleByte_searching hsearch]
      exact tracked_boundary
    · rw [handleByte_searching_other hsearch hflag]
      exact Or.inl hsearch
  by_cases hne : buffer.bytes = []
  · rw [collecting_nil hne]
    rcases boundary_cases byte with ⟨_, ho⟩ | ⟨next, hnext, htype, ho⟩ |
      ⟨_, g, ho, hsearch⟩ <;> rw [ho]
    · exact tracked_boundary
    · refine tracked_collecting ?_
      rw [hnext]
      exact begun_single htype
    · exact Or.inl hsearch
  · rcases collecting_cases hbegun hne byte with ⟨next, hnext, ho⟩ |
      ⟨_, _, ho⟩ | ⟨g, ho, hsearch⟩ <;> rw [ho]
    · refine tracked_collecting ?_
      rw [hnext]
      exact hbegun.append hne [byte]
    · exact tracked_boundary
    · exact Or.inl hsearch

/-- Every state some bytes leave is one of them. -/
theorem tracked_after (expectedLen : Int32) (bytes : List UInt8) :
    Tracked (after hdlcHandleByte (hdlcFrameInit expectedLen) bytes) :=
  Reachable.invariant ⟨bytes, rfl⟩ (Tracked.init expectedLen)
    fun _ byte h => h.step byte

/-! ## Runs -/

/-- Fed with these bytes, the decoder goes from `f` to `f'` and calls the
callback with these frames. -/
abbrev Feeds (f : FrameState) (bytes : List UInt8) (frames : List Buffer)
    (f' : FrameState) : Prop :=
  Run hdlcHandleByte f bytes frames f'

theorem feeds_flags (n : Nat) : Feeds boundary (flags n) [] boundary := by
  induction n with
  | zero => exact Run.nil _ _
  | succ n ih => exact (Run.silent handleByte_idle).append ih

theorem feeds_searching {f : FrameState} (h : Searching f) (n : Nat) :
    Feeds f (flags (n + 1)) [] boundary :=
  (Run.silent (handleByte_searching h)).append (feeds_flags n)

/-- The bytes behind the length, up to as many as it says. -/
theorem feeds_data {first second : UInt8} (more : List UInt8) :
    ∀ {buffer next : Buffer} {rest : List UInt8},
      buffer.bytes = first :: second :: rest →
      next.bytes = buffer.bytes ++ more →
      next.len ≤ frameLength first second →
      Feeds (collecting buffer) more [] (collecting next) := by
  induction more with
  | nil =>
      intro buffer next rest _ hnext _
      rw [List.append_nil] at hnext
      rw [Buffer.ext hnext]
      exact Run.nil _ _
  | cons byte more ih =>
      intro buffer next rest hbytes hnext hle
      have hlen := next.len_le
      rw [Buffer.len, hnext] at hle
      rw [hnext] at hlen
      simp only [List.length_append, List.length_cons] at hle hlen
      let step : Buffer := ⟨buffer.bytes ++ [byte], by
        rw [List.length_append, List.length_singleton]
        omega⟩
      have hstep : hdlcHandleByte (collecting buffer) byte =
          (collecting step, none) :=
        handleByte_data hbytes rfl (by rw [Buffer.len]; omega)
      refine (Run.silent hstep).append (@ih step next (rest ++ [byte]) ?_ ?_ ?_)
      · show buffer.bytes ++ [byte] = _
        rw [hbytes]
        rfl
      · show _ = buffer.bytes ++ [byte] ++ more
        rw [hnext, List.append_assoc]
        rfl
      · rw [Buffer.len, hnext]
        simp only [List.length_append, List.length_cons]
        omega

/-- The front of a frame, up to its length or the two bytes that say it. -/
theorem feeds_begin {front : Buffer} {first second : UInt8} {more : List UInt8}
    (hbytes : front.bytes = first :: second :: more)
    (htype : first.toNat / 16 = 0xA)
    (hle : front.len ≤ max 2 (frameLength first second)) :
    Feeds boundary front.bytes [] (collecting front) := by
  have hlen : front.len = more.length + 2 := congrArg List.length hbytes
  have hsize := front.len_le_size
  let one : Buffer := ⟨[first], by rw [List.length_singleton]; omega⟩
  let two : Buffer := ⟨[first, second], by
    simp only [List.length_cons, List.length_nil]
    omega⟩
  have hopen : Feeds boundary [first] [] (collecting one) :=
    Run.silent (handleByte_open htype rfl)
  have hsecond : Feeds (collecting one) [second] [] (collecting two) :=
    Run.silent (handleByte_second rfl rfl)
  rw [hbytes]
  by_cases hmore : more = []
  · have htwo : front = two := Buffer.ext (by rw [hbytes, hmore])
    rw [hmore, htwo]
    exact hopen.append hsecond
  · have hpos := List.length_pos_iff.mpr hmore
    have hrest : Feeds (collecting two) more [] (collecting front) :=
      feeds_data more rfl hbytes (by omega)
    exact hopen.append (hsecond.append hrest)

/-- A whole frame between flags. -/
theorem feeds_frame {frame : Buffer} (h : IsFrame frame.bytes) (lead : Nat) :
    Feeds boundary (flags lead ++ frame.bytes ++ flags 1) [frame] boundary := by
  have hclose : Feeds (collecting frame) (flags 1) [frame] boundary :=
    Run.emit (handleByte_close h)
  obtain ⟨first, second, rest, hbytes, htype, hdeclared, _⟩ := h
  have hfront : Feeds boundary frame.bytes [] (collecting frame) :=
    feeds_begin hbytes htype (by
      rw [hdeclared]
      exact Nat.le_max_right 2 frame.len)
  exact ((feeds_flags lead).append hfront).append hclose

/-! ## Falling back to the boundary -/

/-- A frame filled up with flags has the length its first bytes say. -/
theorem isFrame_fill {first second : UInt8} {bytes rest : List UInt8} {k : Nat}
    (hbytes : bytes = first :: second :: rest)
    (h : IsFrame (bytes ++ flags k)) :
    frameLength first second = bytes.length + k ∧
      bytes.length + k ≤ BUFFER_SIZE := by
  obtain ⟨first', second', rest', heq, _, hdeclared, hle⟩ := h
  rw [hbytes] at heq
  injection heq with hfirst heq
  injection heq with hsecond _
  rw [List.length_append, flags_length] at hdeclared hle
  rw [hfirst, hsecond]
  exact ⟨hdeclared, hle⟩

theorem not_isFrame_flags (k : Nat) : ¬ IsFrame (flags k) := by
  intro hframe
  obtain ⟨first, second, rest, heq, htype, _⟩ := hframe
  have hflag : first = FLAG_BYTE :=
    List.eq_of_mem_replicate (heq ▸ List.mem_cons_self)
  rw [hflag] at htype
  exact absurd htype (by decide)

/-- What a run of flags does to a state: it ends between two frames, and the
one frame there may be on the way is what was collected, filled up with
flags. -/
def Settles (f : FrameState) (n : Nat) : Prop :=
  (Feeds f (flags n) [] boundary ∧
    ∀ k, ¬ IsFrame (f.buffer.bytes ++ flags k)) ∨
  ∃ (frame : Buffer) (k : Nat), frame.bytes = f.buffer.bytes ++ flags k ∧
    IsFrame frame.bytes ∧ Feeds f (flags n) [frame] boundary

/-- The flags up to some length, before it is decided what becomes of them. -/
theorem feeds_fill {buffer : Buffer} {first second : UInt8}
    {rest : List UInt8} (hbytes : buffer.bytes = first :: second :: rest)
    (k : Nat) (hsize : buffer.len + k ≤ BUFFER_SIZE)
    (hmore : buffer.len + k ≤ frameLength first second) :
    ∃ next : Buffer, next.bytes = buffer.bytes ++ flags k ∧
      next.len = buffer.len + k ∧
      Feeds (collecting buffer) (flags k) [] (collecting next) := by
  have hnext : (buffer.bytes ++ flags k).length = buffer.len + k := by
    rw [List.length_append, flags_length, Buffer.len]
  exact ⟨⟨_, Nat.le_trans (Nat.le_of_eq hnext) hsize⟩, rfl, hnext,
    feeds_data _ hbytes rfl (Nat.le_trans (Nat.le_of_eq hnext) hmore)⟩

/-- A frame that cannot be closed any more is given up at the next flag, and
the one behind it is the boundary. -/
theorem feeds_giveUp {buffer : Buffer} {first second : UInt8}
    {rest : List UInt8} (hbytes : buffer.bytes = first :: second :: rest)
    (hne : buffer.len ≠ frameLength first second)
    (hfull : buffer.len < frameLength first second →
      buffer.len = BUFFER_SIZE) (m : Nat) :
    Feeds (collecting buffer) (flags (1 + (m + 1))) [] boundary := by
  obtain ⟨f, hf, hsearch⟩ :=
    @handleByte_giveUp buffer first second FLAG_BYTE rest hbytes
      ⟨fun _ => hne, hfull⟩
  rw [flags_add]
  exact (Run.silent hf).append (feeds_searching hsearch m)

section

variable {buffer : Buffer} {first second : UInt8} {rest : List UInt8}
  (hbytes : buffer.bytes = first :: second :: rest) {n : Nat}
  (hn : BUFFER_SIZE ≤ n)

include hbytes hn

/-- The length has been passed. -/
theorem settles_passed (hover : frameLength first second < buffer.len) :
    Settles (collecting buffer) n := by
  rw [Settles, collecting_buffer]
  refine Or.inl ⟨?_, fun k hk => ?_⟩
  · obtain ⟨m, rfl⟩ : ∃ m, n = 1 + (m + 1) := ⟨n - 2, by
      rw [BUFFER_SIZE] at hn
      omega⟩
    exact feeds_giveUp hbytes (by omega) (by omega) m
  · have hfits := (isFrame_fill hbytes hk).1
    rw [← Buffer.len] at hfits
    omega

/-- The length is one no buffer can hold. -/
theorem settles_oversize (hbig : BUFFER_SIZE < frameLength first second) :
    Settles (collecting buffer) n := by
  have hle := buffer.len_le_size
  rw [Settles, collecting_buffer]
  refine Or.inl ⟨?_, fun k hk => ?_⟩
  · have hlen : buffer.len = rest.length + 2 := congrArg List.length hbytes
    obtain ⟨next, hnext, hfull, hfeeds⟩ :=
      feeds_fill hbytes (BUFFER_SIZE - buffer.len) (by omega) (by omega)
    obtain ⟨m, rfl⟩ : ∃ m, n = BUFFER_SIZE - buffer.len + (1 + (m + 1)) :=
      ⟨n - (BUFFER_SIZE - buffer.len) - 2, by omega⟩
    rw [flags_add]
    exact hfeeds.append (feeds_giveUp (hnext.trans (by rw [hbytes]; rfl))
      (by omega) (by omega) m)
  · obtain ⟨hfits, hsize⟩ := isFrame_fill hbytes hk
    omega

/-- The flags fill the frame up, and one more closes it. -/
theorem settles_whole (htype : first.toNat / 16 = 0xA)
    (hwithin : buffer.len ≤ frameLength first second)
    (hfits : frameLength first second ≤ BUFFER_SIZE) :
    Settles (collecting buffer) n := by
  have hlen : buffer.len = rest.length + 2 := congrArg List.length hbytes
  rw [Settles, collecting_buffer]
  obtain ⟨next, hnext, hwhole, hfeeds⟩ :=
    feeds_fill hbytes (frameLength first second - buffer.len) (by omega)
      (by omega)
  have hframe : IsFrame next.bytes := by
    refine ⟨first, second, _, hnext.trans (by rw [hbytes]; rfl), htype, ?_,
      next.len_le⟩
    rw [← Buffer.len]
    omega
  refine Or.inr ⟨next, _, hnext, hframe, ?_⟩
  obtain ⟨m, rfl⟩ : ∃ m, n =
      frameLength first second - buffer.len + (1 + m) :=
    ⟨n - (frameLength first second - buffer.len) - 1, by omega⟩
  rw [flags_add, flags_add]
  exact hfeeds.append
    ((Run.emit (handleByte_close hframe)).append (feeds_flags m))

/-- Behind the length. -/
theorem settles_data (htype : first.toNat / 16 = 0xA) :
    Settles (collecting buffer) n := by
  by_cases hover : frameLength first second < buffer.len
  · exact settles_passed hbytes hn hover
  · by_cases hbig : BUFFER_SIZE < frameLength first second
    · exact settles_oversize hbytes hn hbig
    · exact settles_whole hbytes hn htype (Nat.not_lt.mp hover)
        (Nat.not_lt.mp hbig)

end

/-- Behind the first byte of the length: the first flag is taken for the
second. -/
theorem settles_first {buffer : Buffer} {first : UInt8}
    (hbytes : buffer.bytes = [first]) (htype : first.toNat / 16 = 0xA)
    {m : Nat} (hm : BUFFER_SIZE ≤ m) :
    Settles (collecting buffer) (1 + m) := by
  have hsize : [first, FLAG_BYTE].length ≤ BUFFER_SIZE :=
    Nat.succ_le_succ (Nat.succ_le_succ (Nat.zero_le _))
  have hone : Feeds (collecting buffer) (flags 1) []
      (collecting ⟨[first, FLAG_BYTE], hsize⟩) :=
    Run.silent (handleByte_second hbytes rfl)
  have hfills : ∀ k, buffer.bytes ++ flags (1 + k) =
      [first, FLAG_BYTE] ++ flags k := by
    intro k
    rw [flags_add, hbytes]
    rfl
  have hdata := @settles_data ⟨_, hsize⟩ first FLAG_BYTE [] rfl m hm htype
  rw [Settles, collecting_buffer] at hdata ⊢
  rcases hdata with ⟨hfeeds, hnone⟩ | ⟨frame, k, hframe, his, hfeeds⟩
  · refine Or.inl ⟨?_, fun k => ?_⟩
    · rw [flags_add]
      exact hone.append hfeeds
    · rcases k with _ | k
      · intro hframe
        obtain ⟨_, _, _, heq, _⟩ := hframe
        rw [hbytes] at heq
        cases heq
      · rw [Nat.add_comm, hfills]
        exact hnone k
  · refine Or.inr ⟨frame, 1 + k, by rw [hfills]; exact hframe, his, ?_⟩
    rw [flags_add]
    exact hone.append hfeeds

/-- The buffer's size and one more flag bring every state there is to the
boundary. -/
theorem settles {f : FrameState} (h : Tracked f) {n : Nat}
    (hn : BUFFER_SIZE + 1 ≤ n) : Settles f n := by
  obtain ⟨m, rfl⟩ : ∃ m, n = 1 + m := ⟨n - 1, by omega⟩
  rcases h with hsearch | ⟨buffer, hbegun, rfl⟩
  · refine Or.inl ⟨?_, fun k => ?_⟩
    · rw [Nat.add_comm]
      exact feeds_searching hsearch m
    · rw [hsearch.2]
      exact not_isFrame_flags k
  rcases hbytes : buffer.bytes with _ | ⟨first, rest⟩
  · rw [collecting_nil hbytes]
    exact Or.inl ⟨feeds_flags _, not_isFrame_flags⟩
  have htype : first.toNat / 16 = 0xA := by
    rw [hbytes] at hbegun
    exact hbegun first rfl
  rcases rest with _ | ⟨second, rest⟩
  · exact settles_first hbytes htype (by omega)
  · exact settles_data hbytes (by omega) htype

end MBusMeter.Proofs
