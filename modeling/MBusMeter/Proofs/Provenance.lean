import MBusMeter.Proofs.Bridge
import MBusMeter.Proofs.FramePositions
import MBusMeter.Proofs.PduUpdates

/-!
# Where a value comes from

Whatever is on the line, what the meter is told was there: in a report whose
bytes came in blocks, each in a packet with both checksums right, each packet
in a frame between two flags. The blocks of one payload are numbered from one
as far as eight bits count, the final one and no other is marked as last, and
no frame is used twice.

`Assembled` follows a run byte by byte. It splits the blocks that were
accepted so far into those of the payloads that are done and those the
reassembly still holds.
-/

namespace MBusMeter.Proofs

open Lib Firmware Firmware.Hdlc Firmware.HdlcFrame Firmware.Pdu Spec

/-! ## Packets as blocks -/

theorem packetBlock_eq_headed {r : List UInt8} {last : Bool}
    {number : UInt16} {data : List UInt8}
    (h : packetBlock r = .headed last number (some data)) :
    ∃ control ack₁ ack₂, data.length ≤ 255 ∧
      (control &&& 0x80 != 0) = last ∧
      r = control :: bytes16 number ++
        ack₁ :: ack₂ :: data.length.toUInt8 :: data := by
  rcases r with _ | ⟨control, _ | ⟨hi, _ | ⟨lo, r⟩⟩⟩
  · cases h
  · cases h
  · cases h
  rw [packetBlock] at h
  injection h with hlast hnumber hdata
  rcases r with _ | ⟨ack₁, _ | ⟨ack₂, _ | ⟨len, content⟩⟩⟩
  · cases hdata
  · cases hdata
  · cases hdata
  rw [packetData] at hdata
  split at hdata
  · next hlen =>
      cases hdata
      have hlt := len.toNat_lt
      refine ⟨control, ack₁, ack₂, by omega, hlast, ?_⟩
      rw [← hnumber, bytes16_word16, ← hlen]
      simp
  · cases hdata

/-- A packet that is read as a block is one on the wire. -/
theorem exists_block {packet : Buffer} {last : Bool} {number : UInt16}
    {data : List UInt8}
    (h : dlmsPacket packet.bytes = .headed last number (some data)) :
    ∃ b : Block, packet.bytes = b.wire ∧ b.last = last ∧ b.number = number ∧
      b.data = data := by
  rcases hbytes : packet.bytes with _ | ⟨type, r⟩
  · rw [hbytes] at h
    cases h
  rw [hbytes, dlmsPacket] at h
  split at h
  · next htype =>
      obtain ⟨control, ack₁, ack₂, hle, hlast, hr⟩ := packetBlock_eq_headed h
      rcases r with _ | ⟨x, _ | ⟨y, _ | ⟨z, r⟩⟩⟩
      · cases hr
      · cases hr
      · cases hr
      · refine ⟨⟨some (x, y, z), control, number, (ack₁, ack₂), data, hle⟩,
          ?_, hlast, rfl, rfl⟩
        rw [htype, Block.wire, Block.type]
        exact congrArg (fun r => 0xE6 :: x :: y :: z :: r) hr
  · split at h
    · next htype =>
        obtain ⟨control, ack₁, ack₂, hle, hlast, hr⟩ :=
          packetBlock_eq_headed h
        refine ⟨⟨none, control, number, (ack₁, ack₂), data, hle⟩, ?_, hlast,
          rfl, rfl⟩
        rw [htype, Block.wire, Block.type]
        exact congrArg (0xE0 :: ·) hr
    · cases h

/-- What the packet decoder gives back is the information of a packet. -/
theorem isPacket_of_informationOf {frame packet : Buffer}
    (h : informationOf frame = some packet) :
    ∃ header, IsPacket frame.bytes header packet.bytes := by
  rw [informationOf] at h
  rcases packetCall_cases frame ⟨[], Nat.zero_le _⟩ with
    ⟨_, call, ho⟩ | ⟨header, call, hp, ho⟩ | ⟨_, _, call, ho⟩ <;>
    rw [ho] at h <;> cases h
  exact ⟨header, hp⟩

/-! ## Blocks on the line -/

/-- A block that has arrived: the place of the flag it was taken in on, and
the frame in front of it. -/
structure Arrival where
  place : Nat
  frame : Buffer
  header : Header
  block : Block

/-- It is there. -/
structure Arrival.On (a : Arrival) (input : List UInt8) : Prop where
  onTheLine : OnTheLine input a.place a.frame
  isPacket : IsPacket a.frame.bytes a.header a.block.wire

/-- The blocks are numbered from one, in eight bits, and only the final one
of a whole payload is marked. -/
def Numbered (blocks : List Arrival) (whole : Bool) : Prop :=
  ∀ i a, blocks[i]? = some a → a.block.number.toNat = (i + 1) % 256 ∧
    (a.block.last = true ↔ whole = true ∧ i + 1 = blocks.length)

/-- The data of the blocks, as far as the buffer takes it. -/
def assembled (blocks : List Arrival) : Buffer :=
  storeAll dlmsInit.buffer (blocks.map fun a => a.block.data)

/-- The blocks that were accepted: in groups those whose payloads are done,
and behind them those the reassembly still holds. -/
structure Assembled (input : List UInt8) (payloads : List Buffer)
    (state : DlmsState) (groups : List (List Arrival))
    (pending : List Arrival) : Prop where
  on : ∀ a ∈ groups.flatten ++ pending, a.On input
  inOrder : ((groups.flatten ++ pending).map Arrival.place).Pairwise (· < ·)
  numbered : ∀ group ∈ groups, group ≠ [] ∧ Numbered group true
  pending_numbered : Numbered pending false
  payloads_eq : payloads = groups.map assembled
  next : state.nextBlockNumber.toNat = (pending.length + 1) % 256
  buffer : state.buffer = assembled pending

/-! ## One byte more -/

theorem OnTheLine.append {input : List UInt8} {k : Nat} {frame : Buffer}
    (h : OnTheLine input k frame) (byte : UInt8) :
    OnTheLine (input ++ [byte]) k frame := by
  have hk : k < input.length := (List.getElem?_eq_some_iff.mp h.closed).1
  have hfits := h.fits
  refine ⟨h.fits, ?_, ?_, ?_, h.len_ge, h.len_le, h.typeLength⟩
  · rw [List.getElem?_append_left (by omega)]
    exact h.opened
  · rw [List.drop_append_of_le_length (by omega),
      List.take_append_of_le_length (by rw [List.length_drop]; omega)]
    exact h.bytes
  · rw [List.getElem?_append_left hk]
    exact h.closed

theorem Arrival.On.append {a : Arrival} {input : List UInt8}
    (h : a.On input) (byte : UInt8) : a.On (input ++ [byte]) :=
  ⟨h.onTheLine.append byte, h.isPacket⟩

theorem Arrival.On.place_lt {a : Arrival} {input : List UInt8}
    (h : a.On input) : a.place < input.length :=
  (List.getElem?_eq_some_iff.mp h.onTheLine.closed).1

/-- A frame that the last byte completes is on the line in front of it. -/
theorem onTheLine_of_emits {expectedLen : Int32} {input : List UInt8}
    {byte : UInt8} {frame : Buffer}
    (h : (hdlcHandleByte (after hdlcHandleByte (hdlcFrameInit expectedLen)
      input) byte).2 = some frame) :
    OnTheLine (input ++ [byte]) input.length frame := by
  have hinit : Preceded (hdlcFrameInit expectedLen) [] := Or.inl ⟨rfl, rfl⟩
  obtain ⟨hflag, hframe, _, pre, hpast⟩ := (preceded_after input hinit).emits h
  have htake : (input ++ [byte]).take input.length =
      pre ++ FLAG_BYTE :: frame.bytes := by
    rw [List.take_left]
    exact hpast
  refine onTheLine_of_take htake ?_ hframe
  · rw [hflag, List.getElem?_append_right (Nat.le_refl _), Nat.sub_self]
    rfl

theorem numbered_nil : Numbered [] false := nofun

theorem assembled_snoc (blocks : List Arrival) (a : Arrival) :
    assembled (blocks ++ [a]) = (assembled blocks).store a.block.data := by
  rw [assembled, List.map_append, storeAll, List.foldl_append]
  rfl

/-- A block more, with the next number. -/
theorem Numbered.snoc {blocks : List Arrival} {a : Arrival} {whole : Bool}
    (h : Numbered blocks false)
    (hnumber : a.block.number.toNat = (blocks.length + 1) % 256)
    (hlast : a.block.last = whole) : Numbered (blocks ++ [a]) whole := by
  intro i x hx
  rw [List.length_append, List.length_singleton]
  rcases Nat.lt_trichotomy i blocks.length with hlt | rfl | hgt
  · rw [List.getElem?_append_left hlt] at hx
    obtain ⟨hnum, hmark⟩ := h i x hx
    refine ⟨hnum, iff_of_false ?_ (by omega)⟩
    intro hx'
    exact Bool.false_ne_true (hmark.mp hx').1
  · rw [List.getElem?_append_right (Nat.le_refl _), Nat.sub_self] at hx
    cases hx
    exact ⟨hnumber, by rw [hlast]; simp⟩
  · rw [List.getElem?_eq_none (by
      rw [List.length_append, List.length_singleton]; exact hgt)] at hx
    cases hx

variable {input : List UInt8} {byte : UInt8} {payloads : List Buffer}
  {state : DlmsState} {groups : List (List Arrival)} {pending : List Arrival}

/-- A byte that completes no packet. -/
theorem Assembled.idle (h : Assembled input payloads state groups pending) :
    Assembled (input ++ [byte]) payloads state groups pending :=
  { h with on := fun a ha => (h.on a ha).append byte }

/-- What is held is dropped. -/
theorem Assembled.reset (h : Assembled input payloads state groups pending) :
    Assembled input payloads dlmsInit groups [] where
  on := fun a ha => h.on a (by
    rw [List.append_nil] at ha
    exact List.mem_append_left _ ha)
  inOrder := by
    rw [List.append_nil]
    exact h.inOrder.sublist ((List.sublist_append_left _ _).map _)
  numbered := h.numbered
  pending_numbered := numbered_nil
  payloads_eq := h.payloads_eq
  next := rfl
  buffer := rfl

/-- The blocks so far and one that has just arrived. -/
theorem Assembled.inOrder_snoc
    (h : Assembled input payloads state groups pending) {a : Arrival}
    (hplace : a.place = input.length) :
    ((groups.flatten ++ (pending ++ [a])).map Arrival.place).Pairwise
      (· < ·) := by
  rw [← List.append_assoc, List.map_append, List.pairwise_append]
  refine ⟨h.inOrder, List.pairwise_singleton _ _, fun i hi j hj => ?_⟩
  obtain ⟨b, hb, rfl⟩ := List.mem_map.mp hi
  rw [List.map_singleton, List.mem_singleton] at hj
  rw [hj, hplace]
  exact (h.on b hb).place_lt

theorem Assembled.on_snoc
    (h : Assembled input payloads state groups pending) {a : Arrival}
    (ha : a.On (input ++ [byte])) :
    ∀ b ∈ groups.flatten ++ (pending ++ [a]), b.On (input ++ [byte]) := by
  intro b hb
  rw [← List.append_assoc, List.mem_append, List.mem_singleton] at hb
  rcases hb with hb | rfl
  · exact (h.on b hb).append byte
  · exact ha

/-- A byte that completes a packet. -/
theorem Assembled.packet (h : Assembled input payloads state groups pending)
    {frame packet : Buffer} {header : Header}
    (honline : OnTheLine (input ++ [byte]) input.length frame)
    (hpacket : IsPacket frame.bytes header packet.bytes) :
    ∃ groups' pending', Assembled (input ++ [byte])
      (payloads ++ (dlmsCall state packet).2.handed)
      (dlmsCall state packet).1 groups' pending' := by
  rcases dlmsCall_cases state packet with ⟨_, hcall⟩ |
      ⟨_, _, _, _, _, hcall⟩ | ⟨_, _, _, _, hcall⟩ |
      ⟨last, number, data, hp, hnum, hcall⟩
  · rw [hcall, List.append_nil]
    exact ⟨groups, pending, h.idle⟩
  · rw [hcall, List.append_nil]
    exact ⟨groups, [], h.idle.reset⟩
  · rw [hcall, List.append_nil]
    exact ⟨groups, pending, h.idle⟩
  obtain ⟨b, hwire, rfl, rfl, rfl⟩ := exists_block hp
  rw [hwire] at hpacket
  have harrived : Arrival.On ⟨input.length, frame, header, b⟩
      (input ++ [byte]) := ⟨honline, hpacket⟩
  have hstore := assembled_snoc pending ⟨input.length, frame, header, b⟩
  have hnext := hnum.trans h.next
  rw [hcall, DlmsState.accept]
  cases hlast : b.last with
  | true =>
      refine ⟨groups ++ [pending ++ [⟨input.length, frame, header, b⟩]], [],
        ?_, ?_, ?_, numbered_nil, ?_, rfl, rfl⟩
      · rw [List.flatten_append, List.flatten_singleton, List.append_nil]
        exact h.on_snoc harrived
      · rw [List.flatten_append, List.flatten_singleton, List.append_nil]
        exact h.inOrder_snoc rfl
      · intro group hgroup
        rcases List.mem_append.mp hgroup with hgroup | hgroup
        · exact h.numbered group hgroup
        · rw [List.mem_singleton.mp hgroup]
          exact ⟨by simp, h.pending_numbered.snoc hnext hlast⟩
      · rw [List.map_append, List.map_singleton, h.payloads_eq, hstore,
          ← h.buffer]
        rfl
  | false =>
      refine ⟨groups, pending ++ [⟨input.length, frame, header, b⟩],
        h.on_snoc harrived, h.inOrder_snoc rfl, h.numbered,
        h.pending_numbered.snoc hnext hlast, ?_, ?_, ?_⟩
      · exact (List.append_nil _).trans h.payloads_eq
      · show (state.nextBlockNumber + 1).toNat = _
        rw [succ_toNat, h.next, List.length_append, List.length_singleton]
        omega
      · rw [hstore, ← h.buffer]
        rfl

/-- A byte completes a packet, or there is none more. -/
theorem packetsOn_cases (expectedLen : Int32) (input : List UInt8)
    (byte : UInt8) :
    packetsOn expectedLen (input ++ [byte]) =
      packetsOn expectedLen input ++ [] ∨
    ∃ frame header packet, IsPacket frame.bytes header packet.bytes ∧
      OnTheLine (input ++ [byte]) input.length frame ∧
      packetsOn expectedLen (input ++ [byte]) =
        packetsOn expectedLen input ++ [packet] := by
  have hframes := framesOn_snoc expectedLen input byte
  cases hemit : (hdlcHandleByte (after hdlcHandleByte
    (hdlcFrameInit expectedLen) input) byte).2 with
  | none =>
      rw [hemit] at hframes
      exact Or.inl (packetsOn_append hframes)
  | some frame =>
      rw [hemit] at hframes
      have hpackets := packetsOn_append hframes
      cases hinformation : informationOf frame with
      | none =>
          refine Or.inl (hpackets.trans ?_)
          simp [hinformation]
      | some packet =>
          obtain ⟨header, hp⟩ := isPacket_of_informationOf hinformation
          refine Or.inr ⟨frame, header, packet, hp, onTheLine_of_emits hemit,
            hpackets.trans ?_⟩
          simp [hinformation]

/-- Every run is assembled. -/
theorem run_assembled (expectedLen : Int32) (input : List UInt8) :
    ∃ groups pending, Assembled input (payloadsOn expectedLen input)
      (after dlmsCall dlmsInit (packetsOn expectedLen input)) groups
      pending := by
  induction input using List.reverseRecOn with
  | nil => exact ⟨[], [], nofun, .nil, nofun, numbered_nil, rfl, rfl, rfl⟩
  | append_singleton input byte ih =>
      obtain ⟨groups, pending, h⟩ := ih
      rcases packetsOn_cases expectedLen input byte with
        hpackets | ⟨frame, header, packet, hp, honline, hpackets⟩
      · refine ⟨groups, pending, ?_⟩
        rw [payloadsOn_append hpackets, hpackets, List.append_nil]
        exact (List.append_nil (payloadsOn expectedLen input)).symm ▸ h.idle
      · have hstep := h.packet honline hp
        rw [payloadsOn_append hpackets, hpackets, after_snoc, outputs_cons,
          List.flatMap_cons]
        exact (List.append_nil (dlmsCall _ packet).2.handed).symm ▸ hstep

/-- What the device has told the meter came over the line: the payloads are
put together from runs of blocks, every block from a frame of its own, and
every call is one for a value that leads in one of them. -/
theorem calls_fromTheLine (expectedLen : Int32) (input : List UInt8) :
    ∃ groups : List (List Arrival),
      (∀ a ∈ groups.flatten, a.On input) ∧
      (groups.flatten.map Arrival.place).Pairwise (· < ·) ∧
      (∀ group ∈ groups, group ≠ [] ∧ Numbered group true) ∧
      payloadsOn expectedLen input = groups.map assembled ∧
      (∀ u ∈ callsOn expectedLen input, ∃ group ∈ groups,
        ∃ codes values, Leading (assembled group).bytes codes values ∧
          u ∈ published codes values) ∧
      ∀ (zb : EspZigbee) (meter : zb.Meter) (bridge : Bridge zb),
        zb.bridgeTask input (zb.bridgeInit expectedLen meter) =
            .ok ⟨⟩ bridge →
          bridge.meter =
            (callsOn expectedLen input).foldl zb.zigbeeMeterUpdate meter := by
  obtain ⟨groups, pending, h⟩ := run_assembled expectedLen input
  refine ⟨groups, fun a ha => h.on a (List.mem_append_left _ ha), ?_,
    h.numbered, h.payloads_eq, ?_, ?_⟩
  · exact h.inOrder.sublist ((List.sublist_append_left _ _).map _)
  · intro u hu
    obtain ⟨payload, hmem, hcall⟩ := List.mem_flatMap.mp hu
    rw [h.payloads_eq] at hmem
    obtain ⟨group, hgroup, rfl⟩ := List.mem_map.mp hmem
    rw [pduCall_updates] at hcall
    exact ⟨group, hgroup, _, _, leading_scan _, hcall⟩
  · intro zb meter bridge hrun
    rcases bridgeTask_cases zb expectedLen meter input with
      ⟨_, hfault⟩ | ⟨_, ho⟩
    · rw [hrun] at hfault
      cases hfault
    · rw [hrun] at ho
      cases ho
      rfl

end MBusMeter.Proofs
