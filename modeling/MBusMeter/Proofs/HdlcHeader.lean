import MBusMeter.Proofs.HdlcPacket
import MBusMeter.Spec.HdlcHeader

/-!
# The header decoders against the header's layout

The four decoders are run one after the other on a stream that begins with a
header. The format field and the two addresses come back whatever they are:
each decoder takes its own bytes and leaves the stream where the next one has
to start. The control byte is where the header can be lost. A supervisory
frame is turned away, because the test for one is for a bit pattern that was
ruled out one line above it, and the number of the sender is shifted by one
more than its mask is wide, so that of its three bits only the top one
arrives, and at the bottom.

What is left are the unnumbered frames, the only ones the meter sends, and the
information frames that are numbered zero.
-/

namespace MBusMeter.Proofs

open Lib Firmware Firmware.Hdlc Spec

/-- What the four decoders write through their pointers. -/
structure DecodedHeader where
  typeLength : TypeLength
  destinationLen : Nat
  sourceLen : Nat
  controlField : ControlField
  deriving DecidableEq, Repr

/-- The four decoders in the order of the fields. -/
def decodeHeader : Proc Fault Firmware.Stream DecodedHeader := do
  let typeLength ← hdlcDecodeTypeLength
  let destinationLen ← hdlcDecodeAddress
  let sourceLen ← hdlcDecodeAddress
  let controlField ← hdlcDecodeControl
  pure { typeLength, destinationLen, sourceLen, controlField }

/-- Every field that went into the header has come out of it. -/
structure GivesBack (h : HeaderFields) (decoded : DecodedHeader) : Prop where
  type : decoded.typeLength.type.toNat = h.format.type
  segmentation : decoded.typeLength.segmentation = h.format.segmentation
  length : decoded.typeLength.length.toNat = h.format.length
  destination : decoded.destinationLen = h.destination.wire.length
  source : decoded.sourceLen = h.source.wire.length
  control : h.control.ShownBy decoded.controlField

/-- On a stream that begins with the header, all four decoders return true,
give the header back and leave the stream behind it. -/
def Inverted (h : HeaderFields) (stream : Firmware.Stream) : Prop :=
  ∃ decoded stream', decodeHeader stream = .ok decoded stream' ∧
    GivesBack h decoded ∧ stream'.buffer = stream.buffer ∧
    stream'.pos = stream.pos + h.wire.length

/-- The control bytes that survive: those of the unnumbered frames, and of the
information frames with send number zero. -/
def Survives : ControlByte → Prop
  | .information send _ _ => send = 0
  | .supervisory .. => False
  | .unnumbered .. => True

/-! ## The format field -/

theorem decide_toNat_eq_one (p : Bool) : decide (p.toNat = 1) = p := by
  cases p <;> rfl

/-- The bytes of a format field are a format as the decoder takes it, and read
back as what was packed. -/
theorem FormatField.exists_format (f : FormatField) :
    ∃ g : Format, g.wire = f.wire ∧ g.type = f.type ∧
      g.segmentation = f.segmentation ∧ g.declared = f.length := by
  cases f with
  | short length =>
      have hlength : (UInt8.ofNat length).toNat = length :=
        UInt8.toNat_ofNat_of_lt' (show _ < 256 by omega)
      exact ⟨.short (UInt8.ofNat length) (by omega), rfl, rfl, rfl, hlength⟩
  | long type h segmentation length =>
      have hbit := segmentation.toNat_le
      have hfirst : (UInt8.ofNat (128 + 16 * (type - 1) +
          8 * segmentation.toNat + length / 256)).toNat = 128 +
          16 * (type - 1) + 8 * segmentation.toNat + length / 256 :=
        UInt8.toNat_ofNat_of_lt' (show _ < 256 by omega)
      have hsecond : (UInt8.ofNat (length % 256)).toNat = length % 256 :=
        UInt8.toNat_ofNat_of_lt' (show _ < 256 by omega)
      refine ⟨.long _ _ (by omega), rfl, ?_, ?_, ?_⟩
      · simp only [Format.type, FormatField.type, hfirst]
        omega
      · have heighth : (128 + 16 * (type - 1) + 8 * segmentation.toNat +
            length / 256) / 8 % 2 = segmentation.toNat := by omega
        simp only [Format.segmentation, FormatField.segmentation, hfirst,
          heighth, decide_toNat_eq_one]
      · simp only [Format.declared, FormatField.length, hfirst, hsecond]
        omega

/-! ## The control byte -/

theorem final_bit (b : UInt8) :
    (b &&& 0x10 == 0x10) = decide (b.toNat / 16 % 2 = 1) := by
  revert b
  exact forall_byte (by decide +kernel)

/-- Of the number of the sender one bit is left. -/
theorem sequence_bits (b : UInt8) :
    ((b &&& 0x0E) >>> 3).toNat = b.toNat / 8 % 2 ∧
      (b >>> 5).toNat = b.toNat / 32 := by
  revert b
  exact forall_byte (by decide +kernel)

/-- The poll/final bit comes back from whatever kind of byte it is in. -/
theorem finalBit_of_byte {b : UInt8} {low high : Nat} {pollFinal : Bool}
    (hb : b.toNat = low + 16 * pollFinal.toNat + 32 * high)
    (hlow : low < 16) : (b &&& 0x10 == 0x10) = pollFinal := by
  have hbit : b.toNat / 16 % 2 = pollFinal.toNat := by
    have := pollFinal.toNat_le
    omega
  rw [final_bit, hbit, decide_toNat_eq_one]

theorem information_byte (send receive : Fin 8) (pollFinal : Bool) :
    (ControlByte.information send receive pollFinal).byte.toNat =
      2 * send + 16 * pollFinal.toNat + 32 * receive := by
  have := pollFinal.toNat_le
  exact UInt8.toNat_ofNat_of_lt' (show _ < 256 by omega)

theorem supervisory_byte (function : Fin 4) (receive : Fin 8)
    (pollFinal : Bool) :
    (ControlByte.supervisory function receive pollFinal).byte.toNat =
      1 + 4 * function + 16 * pollFinal.toNat + 32 * receive := by
  have := pollFinal.toNat_le
  exact UInt8.toNat_ofNat_of_lt' (show _ < 256 by omega)

theorem unnumbered_byte (low : Fin 4) (high : Fin 8) (pollFinal : Bool) :
    (ControlByte.unnumbered low high pollFinal).byte.toNat =
      3 + 4 * low + 16 * pollFinal.toNat + 32 * high := by
  have := pollFinal.toNat_le
  exact UInt8.toNat_ofNat_of_lt' (show _ < 256 by omega)

/-- Three bits of a number are its top bit only when they are zero. -/
theorem information_shown_iff (send receive : Fin 8) (pollFinal : Bool) :
    (ControlByte.information send receive pollFinal).ShownBy
      (informationField (ControlByte.information send receive pollFinal).byte) ↔
      send = 0 := by
  have hb := information_byte send receive pollFinal
  have hp := pollFinal.toNat_le
  obtain ⟨hsend, hreceive⟩ := sequence_bits
    (ControlByte.information send receive pollFinal).byte
  have hfinal := finalBit_of_byte hb (by omega)
  simp only [ControlByte.ShownBy, informationField, hfinal, Option.map_some,
    Option.some.injEq, Prod.mk.injEq, true_and, hsend, hreceive, hb,
    Fin.ext_iff]
  have hzero : (0 : Fin 8).val = 0 := rfl
  omega

/-- A control byte that is read is one byte, and comes back when it survives
and only then. -/
theorem control_shown_iff {c : ControlByte} {stream : Firmware.Stream}
    {following : List UInt8} (hrest : stream.rest = c.byte :: following) :
    (∃ field, hdlcDecodeControl stream = .ok field (stream.advance 1) ∧
      c.ShownBy field) ↔ Survives c := by
  rw [hdlcDecodeControl_cons hrest]
  cases c with
  | information send receive pollFinal =>
      have hb := information_byte send receive pollFinal
      rw [if_pos (by omega)]
      constructor
      · rintro ⟨field, heq, hshown⟩
        cases heq
        exact (information_shown_iff send receive pollFinal).mp hshown
      · intro hsend
        exact ⟨_, rfl, (information_shown_iff send receive pollFinal).mpr hsend⟩
  | supervisory function receive pollFinal =>
      have hb := supervisory_byte function receive pollFinal
      rw [if_neg (by omega), if_neg (by omega)]
      exact ⟨nofun, nofun⟩
  | unnumbered low high pollFinal =>
      have hb := unnumbered_byte low high pollFinal
      rw [if_neg (by omega), if_pos (by omega)]
      have hfinal := finalBit_of_byte hb (by omega)
      exact ⟨fun _ => trivial, fun _ => ⟨_, rfl, rfl, hfinal⟩⟩

theorem hdlcDecodeControl_ok {stream stream' : Firmware.Stream} {b : UInt8}
    {r : List UInt8} {field : ControlField} (hrest : stream.rest = b :: r)
    (h : hdlcDecodeControl stream = .ok field stream') :
    stream' = stream.advance 1 := by
  rw [hdlcDecodeControl_cons hrest] at h
  split at h
  · cases h
    rfl
  · split at h
    · cases h
      rfl
    · cases h

/-! ## The whole header -/

theorem Takes.ok {α β : Type} {m : Proc Fault Firmware.Stream α}
    {parse : List UInt8 → Option (β × List UInt8)} {agrees : β → α → Prop}
    (h : Takes m parse agrees) {stream : Firmware.Stream} {b : β}
    {r : List UInt8} (hparse : parse stream.rest = some (b, r)) :
    ∃ a stream', m stream = .ok a stream' ∧ stream'.buffer = stream.buffer ∧
      stream'.rest = r ∧ agrees b a := by
  have htake := h stream
  rw [hparse] at htake
  exact htake

/-- The format field and the addresses are given back, and the control byte
is next. -/
theorem decodeHeader_front {h : HeaderFields} {stream : Firmware.Stream}
    {following : List UInt8} (hrest : stream.rest = h.wire ++ following) :
    ∃ t stream', t.type.toNat = h.format.type ∧
      t.segmentation = h.format.segmentation ∧
      t.length.toNat = h.format.length ∧ stream'.buffer = stream.buffer ∧
      stream'.rest = h.control.byte :: following ∧
      decodeHeader stream =
        (hdlcDecodeControl stream').andThen fun controlField =>
          pure
            { typeLength := t
              destinationLen := h.destination.wire.length
              sourceLen := h.source.wire.length
              controlField } := by
  obtain ⟨g, hwire, htype, hsegmentation, hdeclared⟩ :=
    FormatField.exists_format h.format
  rw [HeaderFields.wire, ← hwire, List.append_assoc, List.append_assoc,
    List.append_assoc] at hrest
  obtain ⟨t, s₁, ho₁, hb₁, hr₁, hshown⟩ := takes_typeLength.ok
    (by rw [hrest]; exact takeFormat_wire g _)
  obtain ⟨_, s₂, ho₂, hb₂, hr₂, rfl⟩ := takes_address.ok
    (by rw [hr₁]; exact takeAddress_wire h.destination _)
  obtain ⟨_, s₃, ho₃, hb₃, hr₃, rfl⟩ := takes_address.ok
    (by rw [hr₂]; exact takeAddress_wire h.source _)
  refine ⟨t, s₃, hshown.type.trans htype,
    hshown.segmentation.trans hsegmentation, hshown.length.trans hdeclared,
    hb₃.trans (hb₂.trans hb₁), hr₃, ?_⟩
  rw [decodeHeader, Proc.bind_of_ok ho₁, Proc.bind_of_ok ho₂,
    Proc.bind_of_ok ho₃]
  rfl

theorem survives_of_inverted {h : HeaderFields} {stream : Firmware.Stream}
    {following : List UInt8} (hrest : stream.rest = h.wire ++ following)
    (hinverted : Inverted h stream) : Survives h.control := by
  obtain ⟨_, stream', _, _, _, _, hnext, hdecode⟩ := decodeHeader_front hrest
  obtain ⟨decoded, last, hok, hback, _⟩ := hinverted
  rw [hdecode] at hok
  obtain ⟨field, s, hfield, heq⟩ := Outcome.andThen_eq_ok hok
  cases hdlcDecodeControl_ok hnext hfield
  cases heq
  exact (control_shown_iff hnext).mp ⟨field, hfield, hback.control⟩

/-- The decoders invert the layout exactly on the headers of unnumbered
frames and of information frames with send number zero. -/
theorem header_inverted_iff {h : HeaderFields} {stream : Firmware.Stream}
    {following : List UInt8} (hrest : stream.rest = h.wire ++ following) :
    Inverted h stream ↔ Survives h.control := by
  refine ⟨survives_of_inverted hrest, fun hsurvives => ?_⟩
  obtain ⟨t, stream', htype, hsegmentation, hlength, hbuffer, hnext, hdecode⟩ :=
    decodeHeader_front hrest
  obtain ⟨field, hfield, hshown⟩ := (control_shown_iff hnext).mpr hsurvives
  refine ⟨_, stream'.advance 1, by rw [hdecode, hfield]; rfl,
    ⟨htype, hsegmentation, hlength, rfl, rfl, hshown⟩, hbuffer, ?_⟩
  -- The position is the length of the buffer less what is left to read.
  have hlen := congrArg List.length hrest
  have hlast := congrArg List.length hnext
  rw [Stream.rest_length, List.length_append] at hlen
  rw [Stream.rest_length, hbuffer, List.length_cons] at hlast
  have hpos := stream.pos_le
  have hpos' := stream'.pos_le
  show min (stream'.pos + 1) stream'.buffer.len = _
  rw [hbuffer] at hpos' ⊢
  omega

theorem meterDestination_even : ∀ b ∈ [(0xCE : UInt8)], b.toNat % 2 = 0 :=
  List.forall_mem_singleton.mpr rfl

theorem meterDestination_odd : (0xFF : UInt8).toNat % 2 = 1 := rfl

theorem meterSource_odd : (0x03 : UInt8).toNat % 2 = 1 := rfl

/-- The header of a packet of the meter. -/
def meterHeader : HeaderFields where
  format := .long 3 (by omega) false 0x6D
  destination := ⟨[0xCE], 0xFF, meterDestination_even, meterDestination_odd⟩
  source := .single 0x03 meterSource_odd
  control := .unnumbered 0 0 true

/-- The packet it is the header of, up to the header checksum. -/
def meterPacket : Buffer :=
  ⟨[0xA0, 0x6D, 0xCE, 0xFF, 0x03, 0x13, 0x90, 0xF1], by decide⟩

theorem header_inverted_iff_meter :
    (streamReset meterPacket).rest = meterHeader.wire ++ [0x90, 0xF1] ∧
      (Inverted meterHeader (streamReset meterPacket) ↔
        Survives meterHeader.control) :=
  ⟨rfl, header_inverted_iff rfl⟩

/-- An information frame with send number one. -/
def numberedOne : HeaderFields where
  format := .short 9
  destination := meterHeader.destination
  source := meterHeader.source
  control := .information 1 0 false

/-- Its number is read as zero. -/
theorem numberedOne_not_inverted :
    ¬ ∀ (h : HeaderFields) (stream : Firmware.Stream) (following : List UInt8),
      stream.rest = h.wire ++ following → Inverted h stream := by
  intro hall
  have hrest :
      (streamReset ⟨[0x09, 0xCE, 0xFF, 0x03, 0x02], by decide⟩).rest =
        numberedOne.wire ++ [] := rfl
  have hzero : (1 : Fin 8) = 0 :=
    survives_of_inverted hrest (hall numberedOne _ [] hrest)
  exact absurd hzero Fin.zero_ne_one.symm

end MBusMeter.Proofs
