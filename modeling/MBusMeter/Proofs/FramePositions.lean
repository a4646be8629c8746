import MBusMeter.Proofs.Frames

/-!
# Where on the line the frames are

In the middle of a frame the state is a function of the bytes of the frame, and
these are the last bytes that have come, behind a flag. So a frame that is
handed on was on the line, between that flag and the one it was handed on at;
and since every frame begins behind the flag that closed the one before, frames
have at most a flag in common.

The length of a frame is read twice, by the frame decoder to find its end and
by the packet decoder as a field. They read the same.
-/

namespace MBusMeter.Proofs

open Lib Firmware Firmware.Hdlc Firmware.HdlcFrame Spec

/-- The state has these bytes behind it: the frame it is in is the last of
them, and there is a flag in front of it. -/
def Preceded (f : FrameState) (past : List UInt8) : Prop :=
  Searching f ∨ ∃ (buffer : Buffer) (pre : List UInt8), Begun buffer.bytes ∧
    f = collecting buffer ∧ past = pre ++ FLAG_BYTE :: buffer.bytes

theorem preceded_boundary (pre : List UInt8) :
    Preceded boundary (pre ++ [FLAG_BYTE]) := by
  refine Or.inr ⟨⟨[], Nat.zero_le _⟩, pre, fun first hfirst => ?_, rfl, rfl⟩
  cases hfirst

theorem Preceded.step {f : FrameState} {past : List UInt8}
    (h : Preceded f past) (byte : UInt8) :
    Preceded (hdlcHandleByte f byte).1 (past ++ [byte]) := by
  rcases h with hsearch | ⟨buffer, pre, hbegun, rfl, rfl⟩
  · by_cases hflag : byte = FLAG_BYTE
    · rw [hflag, handleByte_searching hsearch]
      exact preceded_boundary past
    · rw [handleByte_searching_other hsearch hflag]
      exact Or.inl hsearch
  by_cases hne : buffer.bytes = []
  · rw [collecting_nil hne]
    rcases boundary_cases byte with ⟨hflag, ho⟩ | ⟨next, hnext, htype, ho⟩ |
      ⟨_, g, ho, hsearch⟩ <;> rw [ho]
    · rw [hflag]
      exact preceded_boundary _
    · refine Or.inr ⟨next, pre, ?_, rfl, ?_⟩
      · rw [hnext]
        exact begun_single htype
      · rw [hnext, hne, List.append_assoc]
        rfl
    · exact Or.inl hsearch
  · rcases collecting_cases hbegun hne byte with ⟨next, hnext, ho⟩ |
      ⟨hflag, _, ho⟩ | ⟨g, ho, hsearch⟩ <;> rw [ho]
    · refine Or.inr ⟨next, pre, ?_, rfl, ?_⟩
      · rw [hnext]
        exact hbegun.append hne [byte]
      · rw [hnext, List.append_assoc]
        rfl
    · rw [hflag]
      exact preceded_boundary _
    · exact Or.inl hsearch

theorem preceded_after (xs : List UInt8) :
    ∀ {f : FrameState} {past : List UInt8}, Preceded f past →
      Preceded (after hdlcHandleByte f xs) (past ++ xs) := by
  induction xs with
  | nil => intro f past h; rw [List.append_nil]; exact h
  | cons x xs ih =>
      intro f past h
      have htail := ih (h.step x)
      rw [List.append_assoc] at htail
      exact htail

/-- What is handed on is what came between the last flags. -/
theorem Preceded.emits {f : FrameState} {past : List UInt8} {byte : UInt8}
    {frame : Buffer} (h : Preceded f past)
    (hemit : (hdlcHandleByte f byte).2 = some frame) :
    byte = FLAG_BYTE ∧ IsFrame frame.bytes ∧
      hdlcHandleByte f byte = (boundary, some frame) ∧
      ∃ pre, past = pre ++ FLAG_BYTE :: frame.bytes := by
  rcases h with hsearch | ⟨buffer, pre, hbegun, rfl, rfl⟩
  · by_cases hflag : byte = FLAG_BYTE
    · rw [hflag, handleByte_searching hsearch] at hemit
      cases hemit
    · rw [handleByte_searching_other hsearch hflag] at hemit
      cases hemit
  by_cases hne : buffer.bytes = []
  · rw [collecting_nil hne] at hemit
    rcases boundary_cases byte with ⟨_, ho⟩ | ⟨next, _, _, ho⟩ |
      ⟨_, g, ho, _⟩ <;> rw [ho] at hemit <;> cases hemit
  · rcases collecting_cases hbegun hne byte with ⟨next, _, ho⟩ |
      ⟨hflag, hframe, ho⟩ | ⟨g, ho, _⟩ <;> rw [ho] at hemit <;> cases hemit
    exact ⟨hflag, hframe, ho, pre, rfl⟩

/-- A frame handed on in the middle of a run, and the bytes before it. -/
theorem emits_at {f : FrameState} {past xs : List UInt8} {k : Nat}
    {frame : Buffer} (h : Preceded f past)
    (hk : (outputs hdlcHandleByte f xs)[k]? = some (some frame)) :
    xs[k]? = some FLAG_BYTE ∧ IsFrame frame.bytes ∧
      after hdlcHandleByte f (xs.take (k + 1)) = boundary ∧
      ∃ pre, past ++ xs.take k = pre ++ FLAG_BYTE :: frame.bytes := by
  rw [getElem?_outputs] at hk
  obtain ⟨byte, hbyte, hemit⟩ := Option.map_eq_some_iff.mp hk
  obtain ⟨hflag, hframe, hstep, hpast⟩ :=
    (preceded_after (xs.take k) h).emits hemit
  refine ⟨by rw [hbyte, hflag], hframe, ?_, hpast⟩
  rw [List.take_add_one, hbyte, Option.toList_some, after_snoc, hstep]

/-! ## The two readings of the length -/

theorem type_three (b : UInt8) : b.toNat / 16 = 0xA →
    ((b &&& 0x70) >>> 4) + 1 = 3 := by
  revert b
  exact forall_byte (by decide +kernel)

/-- The packet decoder reads of a frame what the frame decoder did. -/
theorem typeLength_of_isFrame {frame : Buffer} (h : IsFrame frame.bytes) :
    ∃ t stream, hdlcDecodeTypeLength (streamReset frame) = .ok t stream ∧
      t.type = 3 ∧ t.length.toNat = frame.len := by
  obtain ⟨first, second, rest, hbytes, htype, hdeclared, _⟩ := h
  have hrest : (streamReset frame).rest = first :: second :: rest := hbytes
  have hr : ((streamReset frame).advance 1).rest = second :: rest :=
    Stream.advance_one_rest hrest
  have hlong : ¬ first.toNat < 0x80 := by omega
  have ho : hdlcDecodeTypeLength (streamReset frame) = .ok
      { type := ((first &&& 0x70) >>> 4) + 1
        segmentation := first &&& 0x08 != 0
        length := ((first.toUInt16 &&& 0x07) <<< 8) ||| second.toUInt16 }
      (((streamReset frame).advance 1).advance 1) := by
    rw [hdlcDecodeTypeLength, Proc.bind_of_ok (streamGetu8_cons hrest),
      if_neg fun h => hlong ((bit7_eq_zero first).mp h),
      if_pos ((format_type first hlong).mpr (by omega)),
      Proc.bind_of_ok (streamGetu8_cons hr)]
    rfl
  exact ⟨_, _, ho, type_three first htype,
    (long_length first second).trans hdeclared⟩

/-! ## Every frame was on the line -/

/-- From `hdlc_frame_init` on, the callback is called with the frame on the
byte at place `k` of the input. -/
def CallbackAt (expectedLen : Int32) (input : List UInt8) (k : Nat)
    (frame : Buffer) : Prop :=
  (outputs hdlcHandleByte (hdlcFrameInit expectedLen) input)[k]? =
    some (some frame)

/-- The frame is on the line in front of the flag at place `k`, from place
`k - frame.len` on. -/
structure OnTheLine (input : List UInt8) (k : Nat) (frame : Buffer) :
    Prop where
  fits : frame.len < k
  opened : input[k - frame.len - 1]? = some FLAG_BYTE
  bytes : (input.drop (k - frame.len)).take frame.len = frame.bytes
  closed : input[k]? = some FLAG_BYTE
  len_ge : 2 ≤ frame.len
  len_le : frame.len ≤ 1024
  typeLength : ∃ t stream,
    hdlcDecodeTypeLength (streamReset frame) = .ok t stream ∧
      t.type = 3 ∧ t.length.toNat = frame.len

theorem onTheLine_of_take {input pre : List UInt8} {k : Nat} {frame : Buffer}
    (hpast : input.take k = pre ++ FLAG_BYTE :: frame.bytes)
    (hclosed : input[k]? = some FLAG_BYTE) (hframe : IsFrame frame.bytes) :
    OnTheLine input k frame := by
  have hk : k < input.length := (List.getElem?_eq_some_iff.mp hclosed).1
  have hlen : k = pre.length + (frame.len + 1) := by
    have hlen := congrArg List.length hpast
    rw [List.length_take, Nat.min_eq_left (Nat.le_of_lt hk),
      List.length_append, List.length_cons] at hlen
    exact hlen
  have hsplit : input = pre ++ FLAG_BYTE :: (frame.bytes ++ input.drop k) := by
    rw [← List.cons_append, ← List.append_assoc, ← hpast,
      List.take_append_drop]
  have hdrop : input.drop (k - frame.len) = frame.bytes ++ input.drop k := by
    have hat : k - frame.len = (pre ++ [FLAG_BYTE]).length := by
      rw [List.length_append, List.length_singleton]
      omega
    have hfront : input =
        (pre ++ [FLAG_BYTE]) ++ (frame.bytes ++ input.drop k) := by
      rw [List.append_assoc]
      exact hsplit
    rw [hat]
    exact (congrArg (List.drop _) hfront).trans List.drop_left
  obtain ⟨first, second, rest, hbytes, _⟩ := id hframe
  refine ⟨by omega, ?_, ?_, hclosed, ?_, frame.len_le,
    typeLength_of_isFrame hframe⟩
  · rw [show k - frame.len - 1 = pre.length by omega, hsplit,
      List.getElem?_append_right (Nat.le_refl _), Nat.sub_self]
    rfl
  · rw [hdrop, Buffer.len, List.take_left]
  · rw [Buffer.len, hbytes]
    simp

/-- Every callback is with a frame that is on the line in front of the flag it
is made on, and that flag is before the frame of every later callback. -/
theorem callbacks_onTheLine (expectedLen : Int32) (input : List UInt8) :
    (∀ k frame, CallbackAt expectedLen input k frame →
      OnTheLine input k frame) ∧
    ∀ k k' frame frame', k < k' → CallbackAt expectedLen input k frame →
      CallbackAt expectedLen input k' frame' → k < k' - frame'.len := by
  have hinit : Preceded (hdlcFrameInit expectedLen) [] := Or.inl ⟨rfl, rfl⟩
  constructor
  · intro k frame hcall
    obtain ⟨hclosed, hframe, _, pre, hpast⟩ := emits_at hinit hcall
    exact onTheLine_of_take hpast hclosed hframe
  · intro k k' frame frame' hlt hcall hcall'
    obtain ⟨hclosed, _, hboundary, _⟩ := emits_at hinit hcall
    -- Behind the first callback it is a run of its own, from its flag on.
    have hrun : (outputs hdlcHandleByte boundary
        (input.drop (k + 1)))[k' - (k + 1)]? = some (some frame') := by
      rw [CallbackAt, ← List.take_append_drop (k + 1) input, outputs_append,
        hboundary] at hcall'
      have hk := (List.getElem?_eq_some_iff.mp hclosed).1
      have hlen : (outputs hdlcHandleByte (hdlcFrameInit expectedLen)
          (input.take (k + 1))).length = k + 1 := by
        rw [outputs_length, List.length_take, Nat.min_eq_left hk]
      rw [List.getElem?_append_right (by rw [hlen]; exact hlt), hlen] at hcall'
      exact hcall'
    obtain ⟨_, _, _, pre, hpast⟩ := emits_at (preceded_boundary []) hrun
    have hlen := congrArg List.length hpast
    simp only [List.nil_append, List.length_append, List.length_cons,
      List.length_nil, List.length_take] at hlen
    rw [Buffer.len]
    omega

end MBusMeter.Proofs
