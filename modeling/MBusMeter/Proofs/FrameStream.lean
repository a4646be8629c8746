import MBusMeter.Proofs.FramePositions

/-!
# Streams of frames

Between two flags a frame goes through whatever its bytes are, because it is
counted and not searched. A stream of frames is therefore handed on as it was
sent, behind any noise in which there is no flag.

Something too long for a frame is given up at the first byte that shows it,
and the decoder goes on to the next flag. That byte is dropped. When it is the
flag itself, which is so for two lengths only, the frame behind it has lost
its opening flag and is lost as well.
-/

namespace MBusMeter.Proofs

open Lib Firmware Firmware.HdlcFrame Spec

theorem feeds_framed (ss : List Framed) :
    Feeds boundary (ss.flatMap Framed.wire)
      (ss.map Framed.frame) boundary := by
  have hone : ∀ s : Framed, Feeds boundary s.wire [s.frame] boundary :=
    fun s => feeds_frame s.isFrame s.lead
  exact Run.flatMap hone ss

/-- Without a flag nothing begins. -/
theorem feeds_noise {f : FrameState} (h : Searching f) {noise : List UInt8}
    (hclean : FLAG_BYTE ∉ noise) : Feeds f noise [] f := by
  induction noise with
  | nil => exact Run.nil _ _
  | cons byte noise ih =>
      have hbyte := handleByte_searching_other h
        (List.ne_of_not_mem_cons hclean).symm
      exact (Run.silent hbyte).append
        (ih (List.not_mem_of_not_mem_cons hclean))

theorem feeds_stream {f : FrameState} (h : Searching f) (ss : List Framed)
    (trail : Nat) :
    Feeds f (streamWire ss trail) (ss.map Framed.frame) boundary := by
  have hall := (feeds_searching h 0).append
    ((feeds_framed ss).append (feeds_flags trail))
  rw [List.append_nil, List.nil_append] at hall
  exact hall

/-- Frames come through as they were sent, behind noise without a flag. -/
theorem stream_roundtrip (expectedLen : Int32) (junk : List UInt8)
    (ss : List Framed) (trail : Nat) (hjunk : FLAG_BYTE ∉ junk) :
    (outputs hdlcHandleByte (hdlcFrameInit expectedLen)
      (junk ++ streamWire ss trail)).reduceOption = ss.map Framed.frame := by
  have hinit : Searching (hdlcFrameInit expectedLen) := ⟨rfl, rfl⟩
  exact ((feeds_noise hinit hjunk).append (feeds_stream hinit ss trail)).emitted

/-- A frame with a flag for its last byte. -/
def flagInside : Framed where
  lead := 1
  frame := ⟨[0xA0, 0x04, 0x7D, 0x7E], by decide⟩
  isFrame := ⟨0xA0, 0x04, [0x7D, 0x7E], rfl, by decide⟩

theorem stream_roundtrip_flagInside :
    (outputs hdlcHandleByte (hdlcFrameInit 5)
      ([0x42, 0x43] ++ streamWire [flagInside, flagInside] 1)).reduceOption =
        [flagInside.frame, flagInside.frame] :=
  stream_roundtrip 5 [0x42, 0x43] [flagInside, flagInside] 1 (by decide)

/-! ## Too long -/

/-- The flag is the byte that shows that the frame is too long: it is the
third, and the length is none or one, or it is the first for which there is no
room. -/
def FlagReveals (w : BadFrame) : Prop :=
  w.bytes.length = 2 ∧ w.declared < 2 ∨
    w.bytes.length = BUFFER_SIZE ∧ BUFFER_SIZE < w.declared

/-- The front of it that is taken for a frame. -/
theorem feeds_front (w : BadFrame) :
    ∃ (front : Buffer) (back : List UInt8), w.bytes = front.bytes ++ back ∧
      (front.len = 2 ∧ w.declared < 2 ∨ front.len = w.declared ∨
        front.len = BUFFER_SIZE ∧ BUFFER_SIZE < w.declared) ∧
      (∃ more, front.bytes = w.first :: w.second :: more) ∧
      Feeds boundary front.bytes [] (collecting front) := by
  have hmisfit := w.misfit
  rw [← BadFrame.declared] at hmisfit
  -- What is missing behind the length, as far as there is room.
  obtain ⟨n, hn⟩ : ∃ n, n = min w.declared BUFFER_SIZE - 2 := ⟨_, rfl⟩
  have hsize : BUFFER_SIZE = 1024 := rfl
  have hmore : (w.rest.take n).length = n := by
    rw [List.length_take]
    omega
  let front : Buffer := ⟨w.first :: w.second :: w.rest.take n, by
    simp only [List.length_cons]
    omega⟩
  have hlen : front.len = n + 2 := congrArg (fun k => k + 2) hmore
  refine ⟨front, w.rest.drop n, ?_, by omega, ⟨_, rfl⟩, ?_⟩
  · show w.first :: w.second :: w.rest =
      w.first :: w.second :: (w.rest.take n ++ w.rest.drop n)
    rw [List.take_append_drop]
  · exact feeds_begin rfl w.type3 (by rw [hlen, ← BadFrame.declared]; omega)

/-- It is given up on one of its own bytes, or on the flag behind it. -/
theorem feeds_bad (w : BadFrame) :
    (¬ FlagReveals w ∧ ∃ f, Feeds boundary w.bytes [] f ∧ Searching f) ∨
    (FlagReveals w ∧
      ∃ f, Feeds boundary (w.bytes ++ flags 1) [] f ∧ Searching f) := by
  have hmisfit := w.misfit
  rw [← BadFrame.declared] at hmisfit
  have hlength : w.bytes.length = w.rest.length + 2 := rfl
  have hclean := w.clean
  obtain ⟨front, back, hbytes, hfull, ⟨more, hfront⟩, hfeeds⟩ := feeds_front w
  have hsum : w.bytes.length = front.len + back.length := by
    rw [hbytes, List.length_append]
    rfl
  have hge : 2 ≤ front.len := by
    rw [Buffer.len, hfront]
    simp
  have hle := front.len_le_size
  rcases back with _ | ⟨byte, back⟩
  · rw [List.length_nil] at hsum
    rw [List.append_nil] at hbytes
    refine Or.inr ⟨by rw [FlagReveals]; omega, ?_⟩
    obtain ⟨f, hf, hsearch⟩ := @handleByte_giveUp front w.first w.second
      FLAG_BYTE more hfront (by rw [← BadFrame.declared]; omega)
    rw [hbytes]
    exact ⟨f, hfeeds.append (Run.silent hf), hsearch⟩
  · rw [List.length_cons] at hsum
    refine Or.inl ⟨by rw [FlagReveals]; omega, ?_⟩
    have hnoise : FLAG_BYTE ∉ byte :: back := fun hmem =>
      hclean (by
        show FLAG_BYTE ∈ w.bytes
        rw [hbytes]
        exact List.mem_append_right _ hmem)
    have hbyte : FLAG_BYTE ≠ byte := List.ne_of_not_mem_cons hnoise
    obtain ⟨f, hf, hsearch⟩ := @handleByte_giveUp front w.first w.second byte
      more hfront ⟨fun hflag => absurd hflag.symm hbyte, by
        rw [← BadFrame.declared]
        omega⟩
    rw [hbytes]
    exact ⟨f, hfeeds.append ((Run.silent hf).append
      (feeds_noise hsearch (List.not_mem_of_not_mem_cons hnoise))), hsearch⟩

/-- Without its opening flag a frame is not handed on: there is no room for
it between the flags it holds and the one behind it. -/
theorem not_emitted_unopened {f : FrameState} (h : Searching f)
    (frame : Buffer) :
    some frame ∉ outputs hdlcHandleByte f (frame.bytes ++ flags 1) := by
  intro hmem
  obtain ⟨k, hk⟩ := List.mem_iff_getElem?.mp hmem
  obtain ⟨hflag, _, _, pre, hpast⟩ :=
    @emits_at f [] _ k frame (Or.inl h) hk
  have hlt := (List.getElem?_eq_some_iff.mp hflag).1
  have hlen := congrArg List.length hpast
  simp only [List.nil_append, List.length_take, List.length_append,
    List.length_cons, flags_length] at hlen hlt
  omega

/-- The frame behind one that is too long is handed on, and nothing else,
exactly when the flag between them is not what shows that the first is too
long. -/
theorem badFrame_dropped_iff (expectedLen : Int32) (w : BadFrame)
    (frame : Buffer) (hframe : IsFrame frame.bytes) :
    (outputs hdlcHandleByte (hdlcFrameInit expectedLen)
      (flags 1 ++ w.bytes ++ flags 1 ++ frame.bytes ++
        flags 1)).reduceOption = [frame] ↔ ¬ FlagReveals w := by
  have hinit : Searching (hdlcFrameInit expectedLen) := ⟨rfl, rfl⟩
  have hopen := feeds_searching hinit 0
  rcases feeds_bad w with ⟨hnot, f, hfeeds, hsearch⟩ |
    ⟨hreveals, f, hfeeds, hsearch⟩
  · refine ⟨fun _ => hnot, fun _ => ?_⟩
    have hgap := (hopen.append hfeeds).append (feeds_searching hsearch 0)
    have hall := hgap.append (feeds_frame hframe 0)
    rw [← List.append_assoc] at hall
    exact hall.emitted
  · refine ⟨fun hemitted => ?_, fun hnot => absurd hreveals hnot⟩
    have hfront := hopen.append hfeeds
    rw [← List.append_assoc] at hfront
    rw [List.append_assoc, outputs_append, List.reduceOption_append,
      hfront.emitted, hfront.state] at hemitted
    have hmem : frame ∈ (outputs hdlcHandleByte f
        (frame.bytes ++ flags 1)).reduceOption := by
      rw [List.nil_append, List.nil_append] at hemitted
      rw [hemitted]
      exact List.mem_singleton_self frame
    exact absurd (List.reduceOption_mem_iff.mp hmem)
      (not_emitted_unopened hsearch frame)

theorem first_type3 : (0xA0 : UInt8).toNat / 16 = 0xA := rfl

/-- One byte more than it declares. -/
def oneByteMore : BadFrame where
  first := 0xA0
  second := 0x03
  rest := [0x01, 0x02]
  type3 := first_type3
  clean := by decide
  misfit := Or.inl (by decide)

def threeBytes : Buffer := ⟨[0xA0, 0x03, 0x02], by decide⟩

theorem threeBytes_isFrame : IsFrame threeBytes.bytes :=
  ⟨0xA0, 0x03, [0x02], rfl, by decide⟩

theorem badFrame_dropped_iff_oneByteMore :
    (outputs hdlcHandleByte (hdlcFrameInit 0)
      (flags 1 ++ oneByteMore.bytes ++ flags 1 ++ threeBytes.bytes ++
        flags 1)).reduceOption = [threeBytes] ↔ ¬ FlagReveals oneByteMore :=
  badFrame_dropped_iff 0 oneByteMore threeBytes threeBytes_isFrame

/-- Two bytes that declare a length of none. -/
def noLength : BadFrame where
  first := 0xA0
  second := 0x00
  rest := []
  type3 := first_type3
  clean := by decide
  misfit := Or.inl (by decide)

/-- They cost the frame behind them. -/
theorem noLength_costs_next :
    ¬ ∀ (expectedLen : Int32) (w : BadFrame) (frame : Buffer),
      IsFrame frame.bytes →
      (outputs hdlcHandleByte (hdlcFrameInit expectedLen)
        (flags 1 ++ w.bytes ++ flags 1 ++ frame.bytes ++
          flags 1)).reduceOption = [frame] := by
  intro h
  have hlost := h 0 noLength threeBytes threeBytes_isFrame
  exact absurd hlost (by decide +kernel)

end MBusMeter.Proofs
