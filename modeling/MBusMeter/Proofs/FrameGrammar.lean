import MBusMeter.Proofs.FrameStream
import MBusMeter.Spec.FrameGrammar

/-!
# The frame decoder parses the line

`hdlc_handle_byte` gets one byte at a time and has four states. Two of them
are the inside of a frame; the other two are the phases of the line's grammar,
and between parts of the line the decoder is in one of these. So whatever is
on the line, the frames it calls back with are those of the grammar.
-/

namespace MBusMeter.Proofs

open Lib Firmware Firmware.HdlcFrame Spec

def InPhase : Phase → FrameState → Prop
  | .searching, f => Searching f
  | .flagged, f => f = boundary

theorem takenFor_le_size (first second : UInt8) :
    takenFor first second ≤ BUFFER_SIZE := Nat.min_le_right _ _

/-- The bytes that are taken in, whatever is behind them. -/
theorem feeds_taken {first second : UInt8} {more : List UInt8}
    (htype : first.toNat / 16 = 0xA)
    (hlen : more.length + 2 ≤ takenFor first second) :
    ∃ front : Buffer, front.bytes = first :: second :: more ∧
      Feeds boundary (first :: second :: more) [] (collecting front) := by
  let front : Buffer := ⟨first :: second :: more,
    Nat.le_trans hlen (takenFor_le_size first second)⟩
  have hfront : front.bytes = first :: second :: more := rfl
  exact ⟨front, hfront, feeds_begin hfront htype
    (Nat.le_trans hlen (Nat.min_le_left _ _))⟩

theorem feeds_part {k l : Phase} {f : FrameState} {bytes : List UInt8}
    {frames : List Buffer} (hin : InPhase k f)
    (hpart : LinePart k bytes frames l) :
    ∃ f', Feeds f bytes frames f' ∧ InPhase l f' := by
  cases hpart with
  | noise hclean =>
      have hflag := (feeds_noise hin hclean).append (feeds_searching hin 0)
      exact ⟨boundary, hflag, rfl⟩
  | idle =>
      rw [show f = boundary from hin]
      exact ⟨boundary, feeds_flags 1, rfl⟩
  | other hflag htype =>
      rw [show f = boundary from hin]
      exact ⟨_, Run.silent (handleByte_falseStart hflag htype), rfl, rfl⟩
  | frame hframe =>
      rw [show f = boundary from hin]
      exact ⟨boundary, feeds_frame hframe 0, rfl⟩
  | @misfit first second byte more htype hlen hmisfit =>
      rw [show f = boundary from hin]
      obtain ⟨front, hfront, hfeeds⟩ :=
        feeds_taken htype (Nat.le_of_eq hlen)
      have hcount : front.len = more.length + 2 := congrArg List.length hfront
      have htaken : takenFor first second =
        min (max 2 (frameLength first second)) BUFFER_SIZE := rfl
      obtain ⟨g, hbyte, hsearch⟩ := handleByte_giveUp hfront
        ⟨fun hflag heq => hmisfit hflag (hcount.symm.trans heq),
          fun hlt => by omega⟩
      exact ⟨g, hfeeds.append (Run.silent hbyte), hsearch⟩

theorem feeds_tail {k : Phase} {f : FrameState} {bytes : List UInt8}
    (hin : InPhase k f) (htail : LineTail k bytes) :
    ∃ f', Feeds f bytes [] f' := by
  cases htail with
  | noise hclean => exact ⟨f, feeds_noise hin hclean⟩
  | empty => exact ⟨f, Run.nil _ _⟩
  | @single first htype =>
      rw [show f = boundary from hin]
      let next : Buffer := ⟨[first], Nat.succ_le_succ (Nat.zero_le 1023)⟩
      have hnext : next.bytes = [first] := rfl
      exact ⟨_, Run.silent (handleByte_open htype hnext)⟩
  | unfinished htype hlen =>
      rw [show f = boundary from hin]
      obtain ⟨front, _, hfeeds⟩ := feeds_taken htype hlen
      exact ⟨_, hfeeds⟩

/-! ## Every line has parts -/

theorem line_searching (bytes : List UInt8) :
    LineTail .searching bytes ∨
    ∃ front back frames l, bytes = front ++ back ∧ front ≠ [] ∧
      LinePart .searching front frames l := by
  by_cases hflag : FLAG_BYTE ∈ bytes
  · obtain ⟨noise, back, rfl, hclean⟩ := List.eq_append_cons_of_mem hflag
    exact Or.inr ⟨noise ++ flags 1, back, [], .flagged, by simp [flags],
      by simp [flags], .noise hclean⟩
  · exact Or.inl (.noise hflag)

/-- What begins as a frame does is a frame, or no frame, or not all there. -/
theorem line_begun {first : UInt8} (htype : first.toNat / 16 = 0xA)
    (second : UInt8) (rest : List UInt8) :
    LineTail .flagged (first :: second :: rest) ∨
    ∃ front back frames l, first :: second :: rest = front ++ back ∧
      front ≠ [] ∧ LinePart .flagged front frames l := by
  have htaken : takenFor first second =
    min (max 2 (frameLength first second)) BUFFER_SIZE := rfl
  have hsize : BUFFER_SIZE = 1024 := rfl
  by_cases hshort : rest.length + 2 ≤ takenFor first second
  · exact Or.inl (.unfinished htype hshort)
  obtain ⟨more, byte, back, rfl, hlen⟩ : ∃ more byte back,
      rest = more ++ byte :: back ∧
        more.length + 2 = takenFor first second := by
    have hlt : takenFor first second - 2 < rest.length := by omega
    obtain ⟨byte, back, hdrop⟩ := List.exists_cons_of_length_pos
      (List.length_drop .. ▸ Nat.sub_pos_of_lt hlt)
    refine ⟨_, byte, back,
      (hdrop ▸ List.take_append_drop (takenFor first second - 2) rest).symm,
      ?_⟩
    rw [List.length_take]
    omega
  right
  by_cases hclosed : byte = FLAG_BYTE ∧
      more.length + 2 = frameLength first second
  · obtain ⟨rfl, hdeclared⟩ := hclosed
    let frame : Buffer := ⟨first :: second :: more,
      Nat.le_trans (Nat.le_of_eq hlen) (takenFor_le_size first second)⟩
    have hframe : IsFrame frame.bytes :=
      ⟨first, second, more, rfl, htype, hdeclared.symm, frame.len_le⟩
    exact ⟨frame.bytes ++ flags 1, back, [frame], .flagged,
      by simp [frame, flags], by simp [frame], .frame hframe⟩
  · exact ⟨(first :: second :: more) ++ [byte], back, [], .searching,
      by simp, by simp, .misfit htype hlen
        fun hflag heq => hclosed ⟨hflag, heq⟩⟩

theorem line_flagged (bytes : List UInt8) :
    LineTail .flagged bytes ∨
    ∃ front back frames l, bytes = front ++ back ∧ front ≠ [] ∧
      LinePart .flagged front frames l := by
  rcases bytes with _ | ⟨first, rest⟩
  · exact Or.inl .empty
  by_cases hflag : first = FLAG_BYTE
  · rw [hflag]
    exact Or.inr ⟨flags 1, rest, [], .flagged, rfl, by simp [flags], .idle⟩
  by_cases htype : first.toNat / 16 = 0xA
  · rcases rest with _ | ⟨second, rest⟩
    · exact Or.inl (.single htype)
    · exact line_begun htype second rest
  · exact Or.inr ⟨[first], rest, [], .searching, rfl, List.cons_ne_nil _ _,
      .other hflag htype⟩

theorem handleByte_recognises :
    Recognises hdlcHandleByte InPhase lineGrammar where
  part := feeds_part
  tail := feeds_tail
  covers k bytes := by
    cases k with
    | searching => exact line_searching bytes
    | flagged => exact line_flagged bytes

/-- On any line, whatever is on it, the decoder calls back with the frames
the line has in the grammar, and there is no other way to read the line. -/
theorem frames_iff_parses (expectedLen : Int32) (line : List UInt8)
    (frames : List Buffer) :
    (outputs hdlcHandleByte (hdlcFrameInit expectedLen) line).reduceOption =
      frames ↔ lineGrammar.Parses .searching line frames :=
  handleByte_recognises.emitted_iff
    (show InPhase .searching (hdlcFrameInit expectedLen) from ⟨rfl, rfl⟩)
    line frames

end MBusMeter.Proofs
