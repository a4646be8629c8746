import MBusMeter.Proofs.Checksum
import MBusMeter.Proofs.HdlcPacket

/-!
# What `hdlc_packet_decode` accepts, and where it goes wrong

Behind the header the decoder has one decision left, and makes it too late:
it asks for two bytes less than are left, and finds out whether there were two
bytes only when it reads the last checksum. A packet that stops right behind
its header checksum, which is what an unnumbered frame without information
looks like, makes it copy a negative number of bytes.

On every other packet it is exact. `packetCall_cases` has the three ends of a
call, each with the packets that come to it.
-/

namespace MBusMeter.Proofs

open Lib Firmware Firmware.Hdlc Spec

/-! ## Checksums -/

theorem checksum_eq_iff (bytes : List UInt8) (a b : UInt8) :
    checksum bytes = [a, b] ↔
      word16 b a = computeChecksum bytes bytes.length := by
  rw [checksum_eq]
  constructor
  · intro h
    have hrev : bytes16 (computeChecksum bytes bytes.length) = [b, a] := by
      rw [← List.reverse_reverse (bytes16 _), h]
      rfl
    rw [← word16_bytes16 (computeChecksum bytes bytes.length)]
    simp only [bytes16, List.cons.injEq, and_true] at hrev
    rw [hrev.1, hrev.2]
  · intro h
    rw [← h, bytes16_word16]
    rfl

theorem hdlcDecodeCrc16_of_lt {stream : Firmware.Stream}
    (h : stream.rest.length < 2) : hdlcDecodeCrc16 stream = .fail stream := by
  rw [hdlcDecodeCrc16, Proc.bind_of_ok Proc.read_apply,
    Proc.bind_of_fail (streamGetu16Le_of_lt h)]

/-- The checksum is over the bytes in front of it. -/
theorem hdlcDecodeCrc16_cons {stream : Firmware.Stream} {front r : List UInt8}
    {a b : UInt8} (hrest : stream.rest = a :: b :: r)
    (hbytes : stream.buffer.bytes = front ++ a :: b :: r) :
    hdlcDecodeCrc16 stream =
      if checksum front = [a, b] then .ok ⟨⟩ (stream.advance 2)
      else .fail (stream.advance 2) := by
  have hpos : stream.pos = front.length := by
    have hlen := stream.rest_length
    have hle := stream.pos_le
    rw [hrest, Buffer.len, hbytes, List.length_append] at hlen
    rw [Buffer.len, hbytes, List.length_append] at hle
    simp only [List.length_cons] at hlen hle
    omega
  have hsum : computeChecksum stream.buffer.bytes stream.pos =
      computeChecksum front front.length := by
    rw [computeChecksum, computeChecksum, hbytes, hpos, List.take_left,
      List.take_length]
  rw [hdlcDecodeCrc16, Proc.bind_of_ok Proc.read_apply,
    Proc.bind_of_ok (streamGetu16Le_cons hrest), hsum, Proc.require_apply]
  by_cases h : checksum front = [a, b]
  · rw [if_pos h, if_pos ((checksum_eq_iff front a b).mp h)]
  · rw [if_neg h, if_neg fun h' => h ((checksum_eq_iff front a b).mpr h')]

/-! ## The header -/

/-- A header is read in one way only. -/
theorem header_unique {h h' : Header} {r r' : List UInt8}
    (heq : h.wire ++ r = h'.wire ++ r') : h = h' ∧ r = r' := by
  have htake := takeHeader_wire h r
  rw [heq, takeHeader_wire h' r'] at htake
  cases htake
  exact ⟨rfl, rfl⟩

theorem checkedHeader_unique {h h' : Header} {r r' : List UInt8}
    (heq : checkedHeader h ++ r = checkedHeader h' ++ r') :
    h = h' ∧ r = r' := by
  rw [checkedHeader, checkedHeader, List.append_assoc, List.append_assoc]
    at heq
  obtain ⟨rfl, htail⟩ := header_unique heq
  exact ⟨rfl, List.append_cancel_left htail⟩

/-- The decoder turns a packet away, or gets to the copy and asks for two
bytes less than are left. -/
theorem informationLength_cases (packet information : Buffer) :
    ((∃ call, informationLength packet (packetStart packet information) =
        .fail call) ∧
      ∀ (h : Header) (tail : List UInt8), h.format.declared = packet.len →
        packet.bytes ≠ checkedHeader h ++ tail) ∨
    ∃ (h : Header) (tail : List UInt8) (stream : Firmware.Stream),
      h.format.declared = packet.len ∧
      packet.bytes = checkedHeader h ++ tail ∧
      stream.buffer = packet ∧ stream.rest = tail ∧
      informationLength packet (packetStart packet information) =
        .ok ((tail.length : Int) - 2) { stream, information } := by
  rcases informationLength_header packet information with
    ⟨hfail, hnone⟩ | ⟨h, r, stream, hdeclared, hbytes, hbuffer, hrest, ho⟩
  · refine Or.inl ⟨hfail, fun h tail hdeclared hbytes => ?_⟩
    rw [checkedHeader, List.append_assoc] at hbytes
    exact hnone h _ hdeclared hbytes
  -- From here on the header is settled, and so is what its checksum must be.
  have hother : ∀ {h' : Header} {tail : List UInt8},
      packet.bytes = checkedHeader h' ++ tail →
        r = checksum h.wire ++ tail := by
    intro h' tail hbytes'
    rw [checkedHeader, List.append_assoc, hbytes] at hbytes'
    obtain ⟨rfl, hr⟩ := header_unique hbytes'
    exact hr
  rw [ho, checkedLength]
  by_cases hshort : r.length < 2
  · refine Or.inl ⟨⟨_, Proc.bind_of_fail (packetStream_fail
      (hdlcDecodeCrc16_of_lt (by rw [hrest]; exact hshort)))⟩, ?_⟩
    intro h' tail _ hbytes'
    rw [hother hbytes', List.length_append, checksum_length] at hshort
    omega
  rcases r with _ | ⟨a, _ | ⟨b, r⟩⟩
  · exact absurd Nat.zero_lt_two hshort
  · exact absurd Nat.one_lt_two hshort
  · have hcrc := hdlcDecodeCrc16_cons hrest (by rw [hbuffer]; exact hbytes)
    by_cases hsum : checksum h.wire = [a, b]
    · rw [if_pos hsum] at hcrc
      have hr : (stream.advance 2).rest = r := Stream.advance_two_rest hrest
      refine Or.inr ⟨h, r, stream.advance 2, hdeclared, ?_, hbuffer, hr, ?_⟩
      · rw [hbytes, checkedHeader, hsum, List.append_assoc]
        rfl
      · rw [Proc.bind_of_ok (packetStream_ok hcrc), Proc.read_apply,
          streamRemains_eq, hr]
    · rw [if_neg hsum] at hcrc
      refine Or.inl ⟨⟨_, Proc.bind_of_fail (packetStream_fail hcrc)⟩, ?_⟩
      intro h' tail _ hbytes'
      have htail := hother hbytes'
      rw [checksum, bytes16] at htail hsum
      injection htail with ha htail
      injection htail with hb _
      exact hsum (by rw [ha, hb]; rfl)

/-! ## The three ends of a call -/

/-- The copy, when there is something to copy: what was in the buffer before
is gone. -/
theorem getInformation_nat {stream : Firmware.Stream} {information : Buffer}
    {n : Nat} (hn : n ≤ stream.rest.length) :
    ∃ copy : Buffer, copy.bytes = stream.rest.take n ∧
      getInformation n { stream, information } =
        .ok ⟨⟩ { stream := stream.advance n, information := copy } := by
  have hlen := stream.rest_length
  have hle := stream.buffer.len_le_size
  refine ⟨(bufferReset information).store (stream.rest.take n), ?_, ?_⟩
  · rw [Buffer.store_bytes]
    · rfl
    · rw [bufferReset_len, List.length_take]
      omega
  · rw [getInformation, Proc.bind_of_ok Proc.update_apply]
    have hcopy :=
      streamGetBuffer_of_le stream (bufferReset information) hn
    rw [Proc.zoom_apply, hcopy]
    rfl

theorem getInformation_neg {call : PacketCall} {len : Int} (hneg : len < 0) :
    ∃ call', getInformation len call = .fault .copyLength call' := by
  rw [getInformation, Proc.bind_of_ok Proc.update_apply]
  exact ⟨_, Proc.zoom_of_fault (streamGetBuffer_neg hneg)⟩

theorem isPacket_not_endsAtHeaderChecksum {bytes information : List UInt8}
    {h : Header} (hp : IsPacket bytes h information) :
    ¬ EndsAtHeaderChecksum bytes := by
  intro hends
  obtain ⟨h', tail, _, hbytes, hlen⟩ := hends
  obtain ⟨_, htail⟩ := checkedHeader_unique (hp.bytes_eq.symm.trans hbytes)
  rw [← htail, List.length_append, checksum_length] at hlen
  omega

theorem isPacket_unique {bytes i i' : List UInt8} {h h' : Header}
    (hp : IsPacket bytes h i) (hp' : IsPacket bytes h' i') : i = i' := by
  obtain ⟨rfl, htail⟩ :=
    checkedHeader_unique (hp.bytes_eq.symm.trans hp'.bytes_eq)
  exact List.append_inj_left' htail (by rw [checksum_length, checksum_length])

theorem exists_append_pair {α : Type} {l : List α} (h : 1 < l.length) :
    ∃ i a b, l = i ++ [a, b] := by
  rcases hrev : l.reverse with _ | ⟨b, _ | ⟨a, r⟩⟩
  · rw [List.reverse_eq_nil_iff.mp hrev] at h
    exact absurd h (Nat.not_lt_zero 1)
  · have hlen := congrArg List.length hrev
    rw [List.length_reverse, List.length_singleton] at hlen
    omega
  · refine ⟨r.reverse, a, b, ?_⟩
    rw [← List.reverse_reverse l, hrev, List.reverse_cons, List.reverse_cons,
      List.append_assoc]
    rfl

/-- The three ends of a call. -/
theorem packetCall_cases (packet information : Buffer) :
    (EndsAtHeaderChecksum packet.bytes ∧
      ∃ call, packetCall packet information = .fault .copyLength call) ∨
    (∃ h call, IsPacket packet.bytes h call.information.bytes ∧
      packetCall packet information = .ok ⟨⟩ call) ∨
    (¬ EndsAtHeaderChecksum packet.bytes ∧
      (∀ h i, ¬ IsPacket packet.bytes h i) ∧
      ∃ call, packetCall packet information = .fail call) := by
  rw [packetCall, hdlcPacketDecode]
  rcases informationLength_cases packet information with
    ⟨⟨call, ho⟩, hnone⟩ |
      ⟨h, tail, stream, hdeclared, hbytes, hbuffer, hrest, ho⟩
  · refine Or.inr (Or.inr ⟨?_, ?_, call, Proc.bind_of_fail ho⟩)
    · intro hends
      obtain ⟨h, tail, hdeclared, hbytes, _⟩ := hends
      exact hnone h tail hdeclared hbytes
    · rintro h i ⟨hdeclared, hbytes⟩
      exact hnone h _ hdeclared hbytes
  rw [Proc.bind_of_ok ho]
  by_cases hshort : tail.length ≤ 1
  · obtain ⟨call, hfault⟩ := @getInformation_neg { stream, information }
      ((tail.length : Int) - 2) (by omega)
    exact Or.inl ⟨⟨h, tail, hdeclared, hbytes, hshort⟩, call,
      Proc.bind_of_fault hfault⟩
  -- All but the last two bytes are the information.
  obtain ⟨i, a, b, rfl⟩ := exists_append_pair (Nat.lt_of_not_le hshort)
  have hnot : ¬ EndsAtHeaderChecksum packet.bytes := by
    intro hends
    obtain ⟨h', tail', _, hbytes', hlen⟩ := hends
    obtain ⟨_, rfl⟩ := checkedHeader_unique (hbytes.symm.trans hbytes')
    exact hshort hlen
  obtain ⟨copy, hcopy, hget⟩ := @getInformation_nat stream information
    i.length (by rw [hrest, List.length_append]; omega)
  rw [hrest, List.take_left] at hcopy
  have hcast : ((i ++ [a, b]).length : Int) - 2 = (i.length : Int) := by
    rw [List.length_append]
    simp
  rw [hcast, Proc.bind_of_ok hget]
  have hrest' : (stream.advance i.length).rest = [a, b] :=
    Stream.advance_rest_append hrest
  have hcrc := @hdlcDecodeCrc16_cons _ (checkedHeader h ++ i) [] a b hrest'
    (by rw [Stream.advance_buffer, hbuffer, hbytes, List.append_assoc])
  by_cases hsum : checksum (checkedHeader h ++ i) = [a, b]
  · rw [if_pos hsum] at hcrc
    refine Or.inr (Or.inl ⟨h, _, ⟨hdeclared, ?_⟩, packetStream_ok hcrc⟩)
    rw [hbytes, packetWire, hcopy, hsum]
  · rw [if_neg hsum] at hcrc
    refine Or.inr (Or.inr ⟨hnot, ?_, _, packetStream_fail hcrc⟩)
    rintro h' i' ⟨_, hbytes'⟩
    obtain ⟨rfl, htail⟩ := checkedHeader_unique (hbytes.symm.trans hbytes')
    have hi : i = i' :=
      List.append_inj_left' htail (by rw [checksum_length]; rfl)
    subst hi
    exact hsum (List.append_cancel_left htail).symm

/-- What the sender builds, the decoder takes apart. -/
theorem packetCall_of_isPacket {packet : Buffer} {h : Header} {i : List UInt8}
    (hp : IsPacket packet.bytes h i) (information : Buffer) :
    ∃ call, packetCall packet information = .ok ⟨⟩ call ∧
      call.information.bytes = i := by
  rcases packetCall_cases packet information with
    ⟨hends, _⟩ | ⟨h', call, hp', ho⟩ | ⟨_, hnone, _⟩
  · exact absurd hends (isPacket_not_endsAtHeaderChecksum hp)
  · exact ⟨call, ho, isPacket_unique hp' hp⟩
  · exact absurd hp (hnone h i)

/-- Every packet that declares its own size is decoded, and the buffer for
the information holds nothing else. -/
theorem hdlcPacketDecode_wire (h : Header) (i : List UInt8)
    (hdeclared : h.format.declared = (packetWire h i).length)
    (hsize : (packetWire h i).length ≤ BUFFER_SIZE) (information : Buffer) :
    ∃ call, packetCall ⟨packetWire h i, hsize⟩ information = .ok ⟨⟩ call ∧
      call.information.bytes = i :=
  packetCall_of_isPacket ⟨hdeclared, rfl⟩ information

/-- A header with a destination address of two bytes. -/
def twoByteAddress : Header where
  format := .long 0x90 0x0D (by decide)
  destination := ⟨[0xCE], 0xFF, List.forall_mem_singleton.mpr rfl, rfl⟩
  source := .single 0x05 (by decide)
  control := 0x97
  control_low := by decide

/-- It stands in front of three bytes, one of them a flag. -/
theorem hdlcPacketDecode_wire_threeBytes :
    ∃ (hsize : (packetWire twoByteAddress [0xE0, 0x7E, 0x40]).length ≤
        BUFFER_SIZE) (call : PacketCall),
      packetCall ⟨packetWire twoByteAddress [0xE0, 0x7E, 0x40], hsize⟩
          ⟨[0x01], by decide⟩ = .ok ⟨⟩ call ∧
        call.information.bytes = [0xE0, 0x7E, 0x40] := by
  have hlen := packetWire_length twoByteAddress [0xE0, 0x7E, 0x40]
  have hsize : (packetWire twoByteAddress [0xE0, 0x7E, 0x40]).length ≤
      BUFFER_SIZE := by
    rw [hlen]
    decide
  exact ⟨hsize, hdlcPacketDecode_wire twoByteAddress [0xE0, 0x7E, 0x40]
    hlen.symm hsize _⟩

/-! ## Soundness -/

/-- What a call should be: it never asks for a negative number of bytes, a
packet it accepts is one and the information is that packet's, and one that
ends at its header checksum is turned away. -/
structure PacketSound (packet information : Buffer) : Prop where
  length_nonneg : ∀ len call,
    informationLength packet (packetStart packet information) = .ok len call →
      0 ≤ len
  accepted : ∀ call, packetCall packet information = .ok ⟨⟩ call →
    ∃ h : Header, IsPacket packet.bytes h call.information.bytes ∧
      (call.information.len : Int) = packet.len - h.wire.length - 4
  rejected : EndsAtHeaderChecksum packet.bytes →
    ∃ call, packetCall packet information = .fail call

/-- A call is as it should be exactly on the packets that do not end at, or
one byte behind, their header checksum. -/
theorem packetSound_iff (packet information : Buffer) :
    PacketSound packet information ↔
      ¬ EndsAtHeaderChecksum packet.bytes := by
  constructor
  · intro hsound hends
    obtain ⟨call, hfail⟩ := hsound.rejected hends
    rcases packetCall_cases packet information with
      ⟨_, call', ho⟩ | ⟨h, call', hp, _⟩ | ⟨hnot, _⟩
    · rw [ho] at hfail
      cases hfail
    · exact isPacket_not_endsAtHeaderChecksum hp hends
    · exact hnot hends
  · intro hnot
    refine ⟨?_, ?_, fun hends => absurd hends hnot⟩
    · intro len call hlength
      rcases informationLength_cases packet information with
        ⟨⟨call', ho⟩, _⟩ | ⟨h, tail, stream, hdeclared, hbytes, _, _, ho⟩
      · rw [ho] at hlength
        cases hlength
      · rw [ho] at hlength
        cases hlength
        have hlong : ¬ tail.length ≤ 1 := fun hshort =>
          hnot ⟨h, tail, hdeclared, hbytes, hshort⟩
        omega
    · intro call hok
      rcases packetCall_cases packet information with
        ⟨hends, _⟩ | ⟨h, call', hp, ho⟩ | ⟨_, _, call', ho⟩
      · exact absurd hends hnot
      · rw [ho] at hok
        cases hok
        refine ⟨h, hp, ?_⟩
        have hlen := hp.length
        rw [← Buffer.len, ← Buffer.len] at hlen
        omega
      · rw [ho] at hok
        cases hok

/-- A frame of seven bytes: format, two addresses, control byte and header
checksum, as a disconnect or a connect request is. -/
def bareFrame : Buffer :=
  ⟨[0xA0, 0x07, 0x03, 0x21, 0x93, 0x0F, 0x01], by decide⟩

/-- The decoder asks for minus two bytes. -/
theorem bareFrame_unsound :
    ¬ ∀ packet information, PacketSound packet information := by
  intro h
  have hlength := (h bareFrame ⟨[], by decide⟩).length_nonneg (-2)
  exact absurd (hlength ⟨(streamReset bareFrame).advance 7, ⟨[], by decide⟩⟩
    (by decide +kernel)) (by decide)

end MBusMeter.Proofs
