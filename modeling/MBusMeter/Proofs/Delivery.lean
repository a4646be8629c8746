import MBusMeter.Firmware.Uart
import MBusMeter.Proofs.Frames
import MBusMeter.Proofs.HdlcSound
import MBusMeter.Proofs.WholeMessage

/-!
# From the line to the handler

The three layers are put together here. The frame decoder alone decides how
the bytes of the line are cut, and the packet decoder and the reassembly see
nothing of the line but the frames, so a run of the whole is a run over the
frames, and between flags these are the sender's own.

After enough flags the receiver is between two frames, in whatever state the
reassembly is. The first message behind them leaves the reassembly as
`dlms_init` does, whether it was taken or spent on getting there, and from
that state on every message is handed over. The flags are where it can go
wrong: filled up with them, the frame that was being collected may be one that
stops at its header checksum.
-/

namespace MBusMeter.Proofs

open Lib Firmware Firmware.Hdlc Firmware.HdlcFrame Spec

/-! ## The line as frames -/

theorem uartHandleByte_none {f g : FrameState} {byte : UInt8}
    (h : hdlcHandleByte f byte = (g, none)) (receiver : Receiver) :
    uartHandleByte byte ⟨f, receiver⟩ = .ok ⟨⟩ ⟨g, receiver⟩ := by
  rw [uartHandleByte]
  simp only [h]

theorem uartHandleByte_some {f g : FrameState} {byte : UInt8} {frame : Buffer}
    (h : hdlcHandleByte f byte = (g, some frame)) (receiver : Receiver) :
    uartHandleByte byte ⟨f, receiver⟩ =
      (hdlcFrameReceived frame receiver).mapState fun r => ⟨g, r⟩ := by
  rw [uartHandleByte]
  simp only [h]

/-- A run over bytes is a run over the frames the decoder finds in them. -/
theorem uartTask_feeds (bytes : List UInt8) :
    ∀ {f g : FrameState} {frames : List Buffer} (receiver : Receiver),
      Feeds f bytes frames g →
      (∀ r, Proc.each hdlcFrameReceived frames receiver = .ok ⟨⟩ r →
        uartTask bytes ⟨f, receiver⟩ = .ok ⟨⟩ ⟨g, r⟩) ∧
      ((Proc.each hdlcFrameReceived frames receiver).faulted = true →
        (uartTask bytes ⟨f, receiver⟩).faulted = true) := by
  induction bytes with
  | nil =>
      rintro f g frames receiver ⟨rfl, rfl⟩
      refine ⟨fun r hr => ?_, fun h => h⟩
      cases hr
      rfl
  | cons byte bytes ih =>
      rintro f g frames receiver ⟨hstate, hframes⟩
      rw [after_cons] at hstate
      rw [outputs_cons] at hframes
      rw [uartTask, Proc.each_cons, ← uartTask]
      rcases hstep : hdlcHandleByte f byte with ⟨f', _ | frame⟩
      · rw [hstep] at hstate hframes
        rw [uartHandleByte_none hstep]
        exact ih receiver ⟨hstate, hframes⟩
      · rw [hstep, List.reduceOption_cons_of_some] at hframes
        rw [hstep] at hstate
        rw [uartHandleByte_some hstep, ← hframes, Proc.each_cons]
        cases hdlcFrameReceived frame receiver with
        | ok value r => exact ih r ⟨hstate, rfl⟩
        | fail r => exact ⟨nofun, fun h => nomatch h⟩
        | fault cause r => exact ⟨nofun, fun _ => rfl⟩

/-! ## Frames as packets -/

/-- A frame that stops at its header checksum is the end of the run; after any
other the receiver goes on. -/
theorem hdlcFrameReceived_cases (frame : Buffer) (receiver : Receiver) :
    (EndsAtHeaderChecksum frame.bytes ∧
      (hdlcFrameReceived frame receiver).faulted = true) ∨
    (¬ EndsAtHeaderChecksum frame.bytes ∧
      ∃ r, hdlcFrameReceived frame receiver = .ok ⟨⟩ r) := by
  rw [hdlcFrameReceived]
  rcases packetCall_cases frame ⟨[], Nat.zero_le _⟩ with
    ⟨hends, call, ho⟩ | ⟨h, call, hp, ho⟩ | ⟨hnot, _, call, ho⟩
  · refine Or.inl ⟨hends, ?_⟩
    simp only [ho, Outcome.faulted_fault]
  · refine Or.inr ⟨isPacket_not_endsAtHeaderChecksum hp, ?_⟩
    simp only [ho, Outcome.ignored_of_not_faulted
      (dlmsDecode_not_faulted receiver.dlmsState call.information)]
    exact ⟨_, rfl⟩
  · refine Or.inr ⟨hnot, ?_⟩
    simp only [ho]
    exact ⟨_, rfl⟩

/-- What a call of `dlms_decode` makes of the receiver. -/
def receive (receiver : Receiver) (packet : Buffer) : Receiver :=
  { dlmsState := (dlmsCall receiver.dlmsState packet).1
    handed := receiver.handed ++
      (dlmsCall receiver.dlmsState packet).2.handed }

theorem hdlcFrameReceived_sent (s : SentFrame) (receiver : Receiver) :
    hdlcFrameReceived s.buffer receiver =
      .ok ⟨⟩ (receive receiver s.block.packet) := by
  have hp : IsPacket s.buffer.bytes s.header s.block.wire :=
    ⟨s.declared, rfl⟩
  obtain ⟨call, ho, hbytes⟩ := packetCall_of_isPacket hp ⟨[], Nat.zero_le _⟩
  have hinformation : call.information = s.block.packet := Buffer.ext hbytes
  rw [hdlcFrameReceived]
  simp only [ho, hinformation, Outcome.ignored_of_not_faulted
    (dlmsDecode_not_faulted receiver.dlmsState s.block.packet)]
  rfl

theorem framesRun_sent (frames : List SentFrame) :
    ∀ receiver, Proc.each hdlcFrameReceived (frames.map SentFrame.buffer)
        receiver =
      .ok ⟨⟩ (((frames.map SentFrame.block).map Block.packet).foldl
        receive receiver) := by
  induction frames with
  | nil => intro receiver; rfl
  | cons s frames ih =>
      intro receiver
      rw [List.map_cons, Proc.each_cons, hdlcFrameReceived_sent,
        Outcome.ok_andThen, ih]
      rfl

theorem foldl_take (bs : List Block) :
    ∀ receiver : Receiver,
      ((bs.map Block.packet).foldl receive receiver).dlmsState =
          afterBlocks receiver.dlmsState bs ∧
        ((bs.map Block.packet).foldl receive receiver).handed.map
            Buffer.bytes =
          receiver.handed.map Buffer.bytes ++
            (handedBytes receiver.dlmsState bs).flatten := by
  induction bs with
  | nil => intro receiver; exact ⟨rfl, (List.append_nil _).symm⟩
  | cons b bs ih =>
      intro receiver
      obtain ⟨hstate, hhanded⟩ := ih (receive receiver b.packet)
      rw [List.map_cons, List.foldl_cons]
      refine ⟨hstate, ?_⟩
      rw [hhanded, handedBytes_cons, List.flatten_cons, ← List.append_assoc]
      congr 1
      exact List.map_append

/-! ## Messages -/

theorem feeds_sent (frames : List SentFrame) :
    Feeds boundary (frames.flatMap SentFrame.wire)
      (frames.map SentFrame.buffer) boundary := by
  have hone : ∀ s : SentFrame,
      Feeds boundary s.wire [s.buffer] boundary :=
    fun s => @feeds_frame s.buffer s.packet_isFrame s.lead
  exact Run.flatMap hone frames

/-- A message that begins between two frames ends between two frames, with the
reassembly as `dlms_init` leaves it; if it began so, the message is handed
over. -/
theorem message_through (m : SentMessage) (receiver : Receiver) :
    ∃ r, uartTask m.wire ⟨boundary, receiver⟩ = .ok ⟨⟩ ⟨boundary, r⟩ ∧
      r.dlmsState = dlmsInit ∧
      (receiver.dlmsState = dlmsInit →
        r.handed.map Buffer.bytes =
          receiver.handed.map Buffer.bytes ++ [m.payload]) := by
  have hrun := (uartTask_feeds m.wire receiver (feeds_sent m.frames)).1 _
    (framesRun_sent m.frames receiver)
  rw [m.frames_blocks] at hrun
  obtain ⟨hstate, hhanded⟩ := foldl_take m.message.blocks receiver
  refine ⟨_, hrun, ?_, fun hinit => ?_⟩
  · rw [hstate]
    by_cases h1 : receiver.dlmsState.nextBlockNumber.toNat = 0 + 1
    · exact (blocks_in_step m.message.numbered _ h1 (by
        have hle := m.message.blocks_le
        omega)).2
    · exact (blocks_out_of_step m.message.numbered _ h1).2
  · have hdelivered : Delivered dlmsInit m.message :=
      (delivered_iff_spells m.message rfl).mpr (spells_of_empty m.message rfl)
    rw [hhanded, hinit, hdelivered.1, List.flatten_append]
    simp [SentMessage.payload]

theorem messages_through (ms : List SentMessage) :
    ∀ receiver : Receiver, receiver.dlmsState = dlmsInit →
      ∃ r, uartTask (ms.flatMap SentMessage.wire) ⟨boundary, receiver⟩ =
          .ok ⟨⟩ ⟨boundary, r⟩ ∧
        r.handed.map Buffer.bytes =
          receiver.handed.map Buffer.bytes ++ ms.map SentMessage.payload := by
  induction ms with
  | nil =>
      intro receiver _
      exact ⟨receiver, rfl, (List.append_nil _).symm⟩
  | cons m ms ih =>
      intro receiver hinit
      obtain ⟨r, hrun, hr, hhanded⟩ := message_through m receiver
      obtain ⟨r', hrun', hhanded'⟩ := ih r hr
      refine ⟨r', ?_, ?_⟩
      · rw [List.flatMap_cons, uartTask, Proc.each_append, ← uartTask, hrun]
        exact hrun'
      · rw [hhanded', hhanded hinit, List.map_cons, List.append_assoc]
        rfl

/-! ## Flags in front -/

/-- The frame that is being collected, filled up with flags, stops at its
header checksum. -/
def FlagsEndFrame (f : FrameState) : Prop :=
  ∃ k, f.buffer.len + k ≤ BUFFER_SIZE ∧
    EndsAtHeaderChecksum (f.buffer.bytes ++ flags k)

theorem endsAtHeaderChecksum_isFrame {bytes : List UInt8}
    (hbegun : Begun bytes) (hle : bytes.length ≤ BUFFER_SIZE)
    (hends : EndsAtHeaderChecksum bytes) : IsFrame bytes := by
  obtain ⟨h, tail, hdeclared, rfl, _⟩ := hends
  cases hformat : h.format with
  | short length hlt =>
      have hfirst := hbegun length (by
        rw [checkedHeader, Header.wire, hformat]
        rfl)
      omega
  | long first second hlong =>
      rw [hformat] at hdeclared
      have hbytes : ∃ rest,
          checkedHeader h ++ tail = first :: second :: rest := by
        rw [checkedHeader, Header.wire, hformat]
        exact ⟨_, rfl⟩
      obtain ⟨rest, hbytes⟩ := hbytes
      refine ⟨first, second, rest, hbytes, ?_, hdeclared, hle⟩
      exact hbegun first (by rw [hbytes]; rfl)

/-- An address ends with an odd byte, and flags are even. -/
theorem not_endsAtHeaderChecksum_flags (k : Nat) :
    ¬ EndsAtHeaderChecksum (flags k) := by
  intro hends
  obtain ⟨h, tail, _, hbytes, _⟩ := hends
  have hmem : h.destination.last ∈ flags k := by
    rw [hbytes, checkedHeader, Header.wire, Address.wire]
    simp
  have hodd := h.destination.last_odd
  rw [List.eq_of_mem_replicate hmem] at hodd
  exact absurd hodd (by decide)

/-- The length of a frame is in its first two bytes. -/
theorem isFrame_ends {xs ys : List UInt8} (hx : IsFrame xs)
    (hxy : IsFrame (xs ++ ys)) : ys = [] := by
  obtain ⟨first, second, rest, rfl, _, hlen, _⟩ := hx
  obtain ⟨first', second', rest', heq, _, hlen', _⟩ := hxy
  injection heq with hfirst heq
  injection heq with hsecond _
  rw [← hfirst, ← hsecond, hlen, List.length_append] at hlen'
  exact List.length_eq_zero_iff.mp (by omega)

theorem isFrame_fill_unique {bytes : List UInt8} {j k : Nat}
    (hj : IsFrame (bytes ++ flags j)) (hk : IsFrame (bytes ++ flags k)) :
    j = k := by
  have hle : ∀ {i j : Nat}, IsFrame (bytes ++ flags i) →
      IsFrame (bytes ++ flags j) → ¬ i < j := by
    intro i j hi hj hlt
    obtain ⟨m, rfl⟩ : ∃ m, j = i + (m + 1) := ⟨j - i - 1, by omega⟩
    rw [flags_add, ← List.append_assoc] at hj
    exact absurd (isFrame_ends hi hj) (List.cons_ne_nil _ _)
  have hjk := hle hj hk
  have hkj := hle hk hj
  omega

theorem flagsEndFrame_isFrame {f : FrameState} (h : Tracked f) {k : Nat}
    (hle : f.buffer.len + k ≤ BUFFER_SIZE)
    (hends : EndsAtHeaderChecksum (f.buffer.bytes ++ flags k)) :
    IsFrame (f.buffer.bytes ++ flags k) := by
  have hlen : (f.buffer.bytes ++ flags k).length ≤ BUFFER_SIZE := by
    rw [List.length_append, flags_length]
    exact hle
  by_cases hempty : f.buffer.bytes = []
  · rw [hempty] at hends
    exact absurd hends (not_endsAtHeaderChecksum_flags k)
  rcases h with hsearch | ⟨buffer, hbegun, rfl⟩
  · exact absurd hsearch.2 hempty
  · rw [collecting_buffer] at *
    exact endsAtHeaderChecksum_isFrame (hbegun.append hempty _) hlen hends

/-- Enough flags bring the receiver between two frames, or the frame they fill
up is the end of it. -/
theorem flags_through {f : FrameState} (h : Tracked f) {n : Nat}
    (hn : BUFFER_SIZE + 1 ≤ n) (receiver : Receiver) :
    (FlagsEndFrame f ∧
      (uartTask (flags n) ⟨f, receiver⟩).faulted = true) ∨
    (¬ FlagsEndFrame f ∧
      ∃ r, uartTask (flags n) ⟨f, receiver⟩ = .ok ⟨⟩ ⟨boundary, r⟩) := by
  rcases settles h hn with ⟨hfeeds, hnone⟩ | ⟨frame, k, hframe, his, hfeeds⟩
  · refine Or.inr ⟨?_, receiver, (uartTask_feeds _ receiver hfeeds).1 _ rfl⟩
    intro hflags
    obtain ⟨k, hle, hends⟩ := hflags
    exact hnone k (flagsEndFrame_isFrame h hle hends)
  obtain ⟨hok, hfault⟩ := uartTask_feeds _ receiver hfeeds
  rw [Proc.each_cons] at hok hfault
  rcases hdlcFrameReceived_cases frame receiver with
    ⟨hends, hbad⟩ | ⟨hnot, r, hr⟩
  · refine Or.inl ⟨⟨k, ?_, ?_⟩, hfault ?_⟩
    · have hle := frame.len_le
      rw [hframe, List.length_append, flags_length, ← Buffer.len] at hle
      exact hle
    · rw [← hframe]
      exact hends
    · cases hrun : hdlcFrameReceived frame receiver with
      | ok value r => rw [hrun] at hbad; cases hbad
      | fail r => rw [hrun] at hbad; cases hbad
      | fault cause r => rfl
  · refine Or.inr ⟨?_, r, hok r (by rw [hr]; rfl)⟩
    intro hflags
    obtain ⟨j, hle, hends⟩ := hflags
    have hj := flagsEndFrame_isFrame h hle hends
    rw [hframe] at his hnot
    rw [isFrame_fill_unique hj his] at hends
    exact hnot hends

/-! ## Recovery and delivery -/

/-- After 1025 flags or more and a first message, whatever it was good for, the
messages behind it are handed over, each once and in order. -/
def Recovers (f : FrameState) (d : DlmsState) : Prop :=
  ∀ (n : Nat) (first : SentMessage) (others : List SentMessage) (trail : Nat),
    1025 ≤ n →
    ∃ u v : Uart,
      uartTask (flags n ++ first.wire) ⟨f, ⟨d, []⟩⟩ = .ok ⟨⟩ u ∧
      uartTask (others.flatMap SentMessage.wire ++ flags trail) u =
        .ok ⟨⟩ v ∧
      v.receiver.handed.map Buffer.bytes =
        u.receiver.handed.map Buffer.bytes ++ others.map SentMessage.payload

/-- From the freshly initialised states, every message is. -/
def DeliversAll (expectedLen : Int32) : Prop :=
  ∀ (n : Nat) (messages : List SentMessage) (trail : Nat), 1025 ≤ n →
    ∃ v : Uart,
      uartTask (flags n ++ (messages.flatMap SentMessage.wire ++ flags trail))
        (uartInit expectedLen) = .ok ⟨⟩ v ∧
      v.receiver.handed.map Buffer.bytes = messages.map SentMessage.payload

theorem uartTask_append (xs ys : List UInt8) (uart : Uart) :
    uartTask (xs ++ ys) uart =
      (uartTask xs uart).andThen fun _ => uartTask ys :=
  Proc.each_append _ xs ys uart

theorem flags_behind (trail : Nat) (receiver : Receiver) :
    uartTask (flags trail) ⟨boundary, receiver⟩ =
      .ok ⟨⟩ ⟨boundary, receiver⟩ :=
  (uartTask_feeds _ receiver (feeds_flags trail)).1 _ rfl

theorem recovers_of_not {f : FrameState} (h : Tracked f)
    (hnot : ¬ FlagsEndFrame f) (d : DlmsState) : Recovers f d := by
  intro n first others trail hn
  rcases flags_through h hn ⟨d, []⟩ with ⟨hends, _⟩ | ⟨_, r, hr⟩
  · exact absurd hends hnot
  obtain ⟨r₁, hrun, hinit, _⟩ := message_through first r
  obtain ⟨r₂, hrun', hhanded⟩ := messages_through others r₁ hinit
  refine ⟨⟨boundary, r₁⟩, ⟨boundary, r₂⟩, ?_, ?_, hhanded⟩
  · rw [uartTask_append, hr]
    exact hrun
  · rw [uartTask_append, hrun']
    exact flags_behind trail r₂

theorem deliversAll (expectedLen : Int32) : DeliversAll expectedLen := by
  intro n messages trail hn
  obtain ⟨m, rfl⟩ : ∃ m, n = m + 1 := ⟨n - 1, by omega⟩
  have hsearch : Searching (hdlcFrameInit expectedLen) := ⟨rfl, rfl⟩
  have hflags := (uartTask_feeds _ ⟨dlmsInit, []⟩
    (feeds_searching hsearch m)).1 _ rfl
  obtain ⟨r, hrun, hhanded⟩ :=
    messages_through messages ⟨dlmsInit, []⟩ rfl
  refine ⟨⟨boundary, r⟩, ?_, hhanded⟩
  rw [uartTask_append, uartInit, hflags, Outcome.ok_andThen, uartTask_append,
    hrun]
  exact flags_behind trail r

/-- The message of one empty block, in a packet of sixteen bytes. -/
def emptySent : SentMessage where
  message := emptyMessage
  frames :=
    [{ lead := 0
       header :=
         { format := .long 0xA0 0x10 (by decide)
           destination := .single 0x03 (by decide)
           source := .single 0x21 (by decide)
           control := 0x13
           control_low := by decide }
       block := emptyBlock
       type3 := rfl
       declared := by rw [packetWire_length]; decide
       packet_le := by rw [packetWire_length]; decide }]
  frames_blocks := rfl

theorem not_recovers_of {f : FrameState} (h : Tracked f)
    (hends : FlagsEndFrame f) (d : DlmsState) : ¬ Recovers f d := by
  intro hrecovers
  obtain ⟨u, v, hrun, _⟩ :=
    hrecovers 1025 emptySent [] 0 (Nat.le_refl _)
  rcases @flags_through f h 1025 (Nat.le_refl _) ⟨d, []⟩ with
    ⟨_, hfault⟩ | ⟨hnot, _⟩
  · rw [uartTask_append] at hrun
    obtain ⟨value, w, hflags, _⟩ := Outcome.andThen_eq_ok hrun
    rw [hflags] at hfault
    cases hfault
  · exact hnot hends

/-- The receiver recovers exactly from the states in which the frame that is
being collected is not one that flags complete to a bare header; and started
afresh it delivers everything. -/
theorem recovers_iff (expectedLen : Int32) (history : List UInt8)
    (packets : List Buffer) :
    (Recovers (after hdlcHandleByte (hdlcFrameInit expectedLen) history)
        (after dlmsCall dlmsInit packets) ↔
      ¬ FlagsEndFrame
        (after hdlcHandleByte (hdlcFrameInit expectedLen) history)) ∧
    DeliversAll expectedLen := by
  have htracked := tracked_after expectedLen history
  refine ⟨⟨fun hrecovers hends => ?_, fun hnot => ?_⟩, deliversAll expectedLen⟩
  · exact not_recovers_of htracked hends _ hrecovers
  · exact recovers_of_not htracked hnot _

/-- A bare frame whose closing flag has not come yet. The first flag closes
it. -/
theorem bareFrame_no_recovery :
    ¬ ((∀ (expectedLen : Int32) (history : List UInt8)
          (packets : List Buffer),
        Recovers (after hdlcHandleByte (hdlcFrameInit expectedLen) history)
          (after dlmsCall dlmsInit packets)) ∧
      ∀ expectedLen : Int32, DeliversAll expectedLen) := by
  intro hboth
  obtain ⟨h, _⟩ := hboth
  have hbuffer : (after hdlcHandleByte (hdlcFrameInit 0)
      (FLAG_BYTE :: bareFrame.bytes)).buffer = bareFrame := by
    decide +kernel
  refine not_recovers_of (tracked_after 0 (FLAG_BYTE :: bareFrame.bytes)) ?_ _
    (h 0 (FLAG_BYTE :: bareFrame.bytes) [])
  refine ⟨0, ?_, ?_⟩
  · rw [hbuffer]
    decide
  · rw [hbuffer]
    refine ⟨{ format := .long 0xA0 0x07 (by decide)
              destination := .single 0x03 (by decide)
              source := .single 0x21 (by decide)
              control := 0x93
              control_low := by decide }, [], rfl, ?_, Nat.zero_le _⟩
    decide +kernel

end MBusMeter.Proofs
