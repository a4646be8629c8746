import MBusMeter.Spec.Hdlc

/-!
# A call of `hdlc_packet_decode` as a function of the packet's bytes

The header is read field by field, and what the fields are is decided by the
bytes alone. Behind the header checksum there is only arithmetic: with two
bytes or more left the information is all but the last two, and with fewer the
decoder asks for a negative number of bytes.
-/

namespace MBusMeter.Proofs

open Lib Firmware Firmware.Hdlc Spec

/-! ## Taking the header off the front -/

def takeFormat : List UInt8 → Option (Format × List UInt8)
  | [] => none
  | first :: r =>
      if hshort : first.toNat < 0x80 then some (.short first hshort, r)
      else
        match r with
        | [] => none
        | second :: r =>
            if hlong : first.toNat < 0xF0 then
              some (.long first second ⟨Nat.not_lt.mp hshort, hlong⟩, r)
            else none

def takeAddress : List UInt8 → Option (Address × List UInt8)
  | [] => none
  | b :: r =>
      if hodd : b.toNat % 2 = 1 then some (.single b hodd, r)
      else
        (takeAddress r).map fun x =>
          (⟨b :: x.1.front, x.1.last, by
            intro y hy
            rcases List.mem_cons.mp hy with rfl | hy
            · omega
            · exact x.1.front_even y hy, x.1.last_odd⟩, x.2)

def takeHeader (bytes : List UInt8) : Option (Header × List UInt8) :=
  (takeFormat bytes).bind fun (format, r) =>
  (takeAddress r).bind fun (destination, r) =>
  (takeAddress r).bind fun (source, r) =>
  match r with
  | [] => none
  | control :: r =>
      if hlow : control.toNat % 4 = 3 then
        some (⟨format, destination, source, control, hlow⟩, r)
      else none

theorem takeFormat_wire (f : Format) (r : List UInt8) :
    takeFormat (f.wire ++ r) = some (f, r) := by
  cases f with
  | short length h => exact dif_pos h
  | long first second h =>
      exact (dif_neg (Nat.not_lt.mpr h.1)).trans (dif_pos h.2)

theorem takeFormat_eq_some {bytes r : List UInt8} {f : Format}
    (h : takeFormat bytes = some (f, r)) : bytes = f.wire ++ r := by
  unfold takeFormat at h
  split at h
  · cases h
  · split at h
    · cases h; rfl
    · split at h
      · cases h
      · split at h
        · cases h; rfl
        · cases h

theorem takeAddress_wire (a : Address) (r : List UInt8) :
    takeAddress (a.wire ++ r) = some (a, r) := by
  obtain ⟨front, last, heven, hodd⟩ := a
  induction front with
  | nil => exact dif_pos hodd
  | cons b front ih =>
      have hb : ¬ b.toNat % 2 = 1 := by
        have := heven b List.mem_cons_self
        omega
      have htail := ih fun x hx => heven x (List.mem_cons_of_mem b hx)
      show takeAddress (b :: (front ++ [last] ++ r)) = _
      rw [takeAddress, dif_neg hb]
      rw [Address.wire] at htail
      rw [htail]
      rfl

theorem takeAddress_eq_some {bytes : List UInt8} :
    ∀ {r : List UInt8} {a : Address},
      takeAddress bytes = some (a, r) → bytes = a.wire ++ r := by
  induction bytes with
  | nil => intro r a h; cases h
  | cons b bytes ih =>
      intro r a h
      rw [takeAddress] at h
      split at h
      · cases h; rfl
      · obtain ⟨⟨a', r'⟩, h', heq⟩ := Option.map_eq_some_iff.mp h
        cases heq
        rw [ih h']
        rfl

theorem takeHeader_wire (h : Header) (r : List UInt8) :
    takeHeader (h.wire ++ r) = some (h, r) := by
  rw [Header.wire, List.append_assoc, List.append_assoc, List.append_assoc,
    takeHeader, takeFormat_wire]
  simp only [Option.bind_some]
  rw [takeAddress_wire]
  simp only [Option.bind_some]
  rw [takeAddress_wire]
  simp only [Option.bind_some]
  exact dif_pos h.control_low

/-! ## The fields

A field decoder takes what its parser takes, and knows no more of it than
`agrees` says. -/

def Takes {α β : Type} (m : Proc Fault Firmware.Stream α)
    (parse : List UInt8 → Option (β × List UInt8)) (agrees : β → α → Prop) :
    Prop :=
  ∀ stream, match parse stream.rest with
    | none => ∃ stream', m stream = .fail stream'
    | some (b, r) => ∃ a stream', m stream = .ok a stream' ∧
        stream'.buffer = stream.buffer ∧ stream'.rest = r ∧ agrees b a

/-- What holds of the 256 bytes one by one holds of bytes. -/
theorem forall_byte {P : UInt8 → Prop} (h : ∀ i : Fin 256, P (UInt8.ofFin i)) :
    ∀ b, P b := fun b => h b.toFin

theorem bit7_eq_zero (b : UInt8) : b &&& 0x80 = 0 ↔ b.toNat < 0x80 := by
  revert b
  exact forall_byte (by decide +kernel)

theorem bit0_eq_one (b : UInt8) : b &&& 0x01 = 0x01 ↔ b.toNat % 2 = 1 := by
  revert b
  exact forall_byte (by decide +kernel)

theorem format_type (b : UInt8) : ¬ b.toNat < 0x80 →
    ((1 : UInt8) ≤ ((b &&& 0x70) >>> 4) + 1 ∧
      ((b &&& 0x70) >>> 4) + 1 ≤ (7 : UInt8) ↔ b.toNat < 0xF0) := by
  revert b
  exact forall_byte (by decide +kernel)

theorem short_length (b : UInt8) : b.toNat < 0x80 →
    (b &&& 0x7F).toUInt16.toNat = b.toNat := by
  revert b
  exact forall_byte (by decide +kernel)

theorem low3 (b : UInt8) : b.toUInt16 &&& 0x07 = (b &&& 0x07).toUInt16 ∧
    (b &&& 0x07).toNat = b.toNat % 8 := by
  revert b
  exact forall_byte (by decide +kernel)

theorem long_length (a b : UInt8) :
    (((a.toUInt16 &&& 0x07) <<< 8) ||| b.toUInt16).toNat =
      a.toNat % 8 * 256 + b.toNat := by
  have hword := word16_toNat (a &&& 0x07) b
  rw [word16, ← (low3 a).1, (low3 a).2] at hword
  rw [hword]
  omega

theorem long_type (b : UInt8) :
    (((b &&& 0x70) >>> 4) + 1).toNat = b.toNat / 16 % 8 + 1 := by
  revert b
  exact forall_byte (by decide +kernel)

theorem segmentation_bit (b : UInt8) :
    (b &&& 0x08 != 0) = decide (b.toNat / 8 % 2 = 1) := by
  revert b
  exact forall_byte (by decide +kernel)

/-- What the decoder gives back is what the format field says. -/
structure FormatShown (f : Format) (t : TypeLength) : Prop where
  type : t.type.toNat = f.type
  segmentation : t.segmentation = f.segmentation
  length : t.length.toNat = f.declared

theorem takes_typeLength :
    Takes hdlcDecodeTypeLength takeFormat FormatShown := by
  intro stream
  rw [hdlcDecodeTypeLength]
  rcases hrest : stream.rest with _ | ⟨first, r⟩
  · exact ⟨stream, Proc.bind_of_fail (streamGetu8_nil hrest)⟩
  have hr : (stream.advance 1).rest = r := Stream.advance_one_rest hrest
  rw [Proc.bind_of_ok (streamGetu8_cons hrest), takeFormat]
  by_cases hshort : first.toNat < 0x80
  · rw [dif_pos hshort, if_pos ((bit7_eq_zero first).mpr hshort)]
    exact ⟨_, _, rfl, rfl, hr, rfl, rfl, short_length first hshort⟩
  · rw [dif_neg hshort, if_neg (fun h => hshort ((bit7_eq_zero first).mp h))]
    by_cases hlong : first.toNat < 0xF0
    · rw [if_pos ((format_type first hshort).mpr hlong)]
      rcases r with _ | ⟨second, r⟩
      · exact ⟨_, Proc.bind_of_fail (streamGetu8_nil hr)⟩
      · have hr' : ((stream.advance 1).advance 1).rest = r :=
          Stream.advance_one_rest hr
        rw [Proc.bind_of_ok (streamGetu8_cons hr)]
        simp only [dif_pos hlong]
        exact ⟨_, _, rfl, rfl, hr', long_type first, segmentation_bit first,
          long_length first second⟩
    · rw [if_neg (fun h => hlong ((format_type first hshort).mp h))]
      rcases r with _ | ⟨second, r⟩
      · exact ⟨_, rfl⟩
      · simp only [dif_neg hlong]
        exact ⟨_, rfl⟩

/-- With a round for every byte that is left, and one to find that none is,
the loop ends. -/
theorem addressLoop_takes (bytes : List UInt8) :
    ∀ (rounds n : Nat) (stream : Firmware.Stream), stream.rest = bytes →
      bytes.length < rounds →
      match takeAddress bytes with
      | none => ∃ stream', addressLoop rounds n stream = .fail stream'
      | some (a, r) => ∃ stream',
          addressLoop rounds n stream = .ok (n + a.wire.length) stream' ∧
            stream'.buffer = stream.buffer ∧ stream'.rest = r := by
  induction bytes with
  | nil =>
      intro rounds n stream hrest hlt
      rcases rounds with _ | rounds
      · exact absurd hlt (Nat.lt_irrefl 0)
      · exact ⟨stream, Proc.bind_of_fail (streamGetu8_nil hrest)⟩
  | cons b bytes ih =>
      intro rounds n stream hrest hlt
      rcases rounds with _ | rounds
      · exact absurd hlt (Nat.not_lt_zero _)
      have hr : (stream.advance 1).rest = bytes := Stream.advance_one_rest hrest
      rw [addressLoop, Proc.bind_of_ok (streamGetu8_cons hrest), takeAddress]
      by_cases hodd : b.toNat % 2 = 1
      · rw [dif_pos hodd, if_pos ((bit0_eq_one b).mpr hodd)]
        exact ⟨_, rfl, rfl, hr⟩
      · rw [dif_neg hodd, if_neg (fun h => hodd ((bit0_eq_one b).mp h))]
        have htail := ih rounds (n + 1) (stream.advance 1) hr
          (Nat.lt_of_succ_lt_succ hlt)
        cases htake : takeAddress bytes with
        | none =>
            rw [htake] at htail
            exact htail
        | some x =>
            rw [htake] at htail
            obtain ⟨stream', ho, hbuffer, hrest'⟩ := htail
            refine ⟨stream', ?_, hbuffer, hrest'⟩
            rw [ho]
            simp only [Address.wire, List.cons_append, List.length_cons]
            congr 1
            omega

theorem takes_address :
    Takes hdlcDecodeAddress takeAddress fun a n => n = a.wire.length := by
  intro stream
  have hlen := stream.rest_length
  have hle := stream.buffer.len_le
  rw [Buffer.len] at hlen
  have hloop := addressLoop_takes stream.rest (BUFFER_SIZE + 1) 0 stream rfl
    (by omega)
  rw [hdlcDecodeAddress]
  cases htake : takeAddress stream.rest with
  | none =>
      rw [htake] at hloop
      exact hloop
  | some x =>
      rw [htake] at hloop
      obtain ⟨stream', ho, hbuffer, hrest⟩ := hloop
      rw [Nat.zero_add] at ho
      exact ⟨_, stream', ho, hbuffer, hrest, rfl⟩

theorem control_low (b : UInt8) :
    (b &&& 0x01 = 0 ↔ b.toNat % 2 = 0) ∧
      (b &&& 0x03 = 0x02 → b.toNat % 2 = 0) ∧
      (b &&& 0x03 = 0x03 ↔ b.toNat % 4 = 3) := by
  revert b
  exact forall_byte (by decide +kernel)

theorem hdlcDecodeControl_nil {stream : Firmware.Stream}
    (h : stream.rest = []) : hdlcDecodeControl stream = .fail stream :=
  Proc.bind_of_fail (streamGetu8_nil h)

/-- The field of an information frame. -/
def informationField (b : UInt8) : ControlField where
  type := .informationTransferCommand
  finalBit := b &&& 0x10 == 0x10
  informationTransferCommand := some
    { sendSequenceNumber := (b &&& 0x0E) >>> 3
      receiveSequenceNumber := b >>> 5 }

/-- The field of an unnumbered frame. -/
def unnumberedField (b : UInt8) : ControlField where
  type := .unnumberedCommand
  finalBit := b &&& 0x10 == 0x10
  informationTransferCommand := none

/-- `hdlc_decode_control` on a byte: the two kinds it can tell. -/
theorem hdlcDecodeControl_cons {stream : Firmware.Stream} {b : UInt8}
    {r : List UInt8} (hrest : stream.rest = b :: r) :
    hdlcDecodeControl stream =
      if b.toNat % 2 = 0 then .ok (informationField b) (stream.advance 1)
      else if b.toNat % 4 = 3 then
        .ok (unnumberedField b) (stream.advance 1)
      else .fail (stream.advance 1) := by
  obtain ⟨h₁, h₂, h₃⟩ := control_low b
  rw [hdlcDecodeControl, Proc.bind_of_ok (streamGetu8_cons hrest)]
  by_cases heven : b.toNat % 2 = 0
  · rw [if_pos heven, if_pos (h₁.mpr heven)]
    rfl
  · -- the test for a supervisory command never holds here
    rw [if_neg heven, if_neg fun h => heven (h₁.mp h),
      if_neg fun h => heven (h₂ h)]
    by_cases hlow : b.toNat % 4 = 3
    · rw [if_pos hlow, if_pos (h₃.mpr hlow)]
      rfl
    · rw [if_neg hlow, if_neg fun h => hlow (h₃.mp h)]
      rfl

/-! ## The header -/

theorem packetStream_ok {α : Type} {m : Proc Fault Firmware.Stream α}
    {call : PacketCall} {a : α} {stream : Firmware.Stream}
    (h : m call.stream = .ok a stream) :
    PacketCall.onStream m call = .ok a { call with stream } :=
  Proc.zoom_of_ok h

theorem packetStream_fail {α : Type} {m : Proc Fault Firmware.Stream α}
    {call : PacketCall} {stream : Firmware.Stream}
    (h : m call.stream = .fail stream) :
    PacketCall.onStream m call = .fail { call with stream } :=
  Proc.zoom_of_fail h

/-- A field in front of the rest of a procedure. -/
theorem Takes.step {α β γ : Type} {m : Proc Fault Firmware.Stream α}
    {parse : List UInt8 → Option (β × List UInt8)} {agrees : β → α → Prop}
    (h : Takes m parse agrees) (call : PacketCall)
    (k : α → Proc Fault PacketCall γ) :
    (parse call.stream.rest = none ∧
      ∃ call', (PacketCall.onStream m >>= k) call = .fail call') ∨
    ∃ b r a stream', parse call.stream.rest = some (b, r) ∧
      stream'.buffer = call.stream.buffer ∧ stream'.rest = r ∧ agrees b a ∧
      (PacketCall.onStream m >>= k) call =
        k a { call with stream := stream' } := by
  have htake := h call.stream
  cases hparse : parse call.stream.rest with
  | none =>
      rw [hparse] at htake
      obtain ⟨stream', ho⟩ := htake
      exact Or.inl ⟨rfl, _, Proc.bind_of_fail (packetStream_fail ho)⟩
  | some x =>
      rw [hparse] at htake
      obtain ⟨a, stream', ho, hbuffer, hrest, hagrees⟩ := htake
      exact Or.inr ⟨x.1, x.2, a, stream', rfl, hbuffer, hrest, hagrees,
        Proc.bind_of_ok (packetStream_ok ho)⟩

/-- `informationLength` from the header checksum on. -/
def checkedLength : Proc Fault PacketCall Int := do
  PacketCall.onStream hdlcDecodeCrc16
  Proc.read fun call => streamRemains call.stream - 2

/-- `informationLength` from the control byte on. -/
def controlledLength : Proc Fault PacketCall Int := do
  let controlField ← PacketCall.onStream hdlcDecodeControl
  Proc.require (controlField.type = .unnumberedCommand)
  checkedLength

/-- An unnumbered control byte is read, and anything else is turned away. -/
theorem controlledLength_cases (stream : Firmware.Stream)
    (information : Buffer) :
    ((∃ call, controlledLength ⟨stream, information⟩ = .fail call) ∧
      ∀ control r, stream.rest = control :: r → control.toNat % 4 ≠ 3) ∨
    ∃ control r, stream.rest = control :: r ∧ control.toNat % 4 = 3 ∧
      controlledLength ⟨stream, information⟩ =
        checkedLength ⟨stream.advance 1, information⟩ := by
  rcases hrest : stream.rest with _ | ⟨control, r⟩
  · refine Or.inl ⟨⟨_, Proc.bind_of_fail
      (packetStream_fail (hdlcDecodeControl_nil hrest))⟩, fun control r h => ?_⟩
    cases h
  have hcontrol := hdlcDecodeControl_cons hrest
  rw [controlledLength]
  by_cases hlow : control.toNat % 4 = 3
  · have htype : (unnumberedField control).type = .unnumberedCommand := rfl
    rw [if_neg (by omega), if_pos hlow] at hcontrol
    rw [Proc.bind_of_ok (packetStream_ok hcontrol),
      Proc.bind_of_ok (Proc.require_of htype)]
    exact Or.inr ⟨control, r, rfl, hlow, rfl⟩
  · refine Or.inl ⟨?_, fun control r h => ?_⟩
    · rw [if_neg hlow] at hcontrol
      split at hcontrol
      · rw [Proc.bind_of_ok (packetStream_ok hcontrol)]
        exact ⟨_, Proc.bind_of_fail (Proc.require_of_not nofun)⟩
      · exact ⟨_, Proc.bind_of_fail (packetStream_fail hcontrol)⟩
    · cases h
      exact hlow

/-- `informationLength` behind the length check. -/
def addressedLength : Proc Fault PacketCall Int := do
  let _ ← PacketCall.onStream hdlcDecodeAddress
  let _ ← PacketCall.onStream hdlcDecodeAddress
  controlledLength

/-- Two addresses and an unnumbered control byte are read, and anything else
is turned away. -/
theorem addressedLength_cases (stream : Firmware.Stream)
    (information : Buffer) :
    ((∃ call, addressedLength ⟨stream, information⟩ = .fail call) ∧
      ∀ (destination source : Address) control r, control.toNat % 4 = 3 →
        stream.rest ≠ destination.wire ++ (source.wire ++ control :: r)) ∨
    ∃ (destination source : Address) (control : UInt8) (r : List UInt8)
      (stream' : Firmware.Stream), control.toNat % 4 = 3 ∧
      stream.rest = destination.wire ++ (source.wire ++ control :: r) ∧
      stream'.buffer = stream.buffer ∧ stream'.rest = r ∧
      addressedLength ⟨stream, information⟩ =
        checkedLength ⟨stream', information⟩ := by
  rw [addressedLength]
  rcases takes_address.step ⟨stream, information⟩ _ with
    ⟨hp₁, hfail⟩ | ⟨destination, r₁, n₁, s₁, hp₁, hb₁, hr₁, _, ho₁⟩
  · refine Or.inl ⟨hfail, fun destination source control r _ hrest => ?_⟩
    rw [hrest, takeAddress_wire] at hp₁
    cases hp₁
  rw [ho₁]
  have hrest₁ : stream.rest = destination.wire ++ r₁ :=
    takeAddress_eq_some hp₁
  rcases takes_address.step ⟨s₁, information⟩ _ with
    ⟨hp₂, hfail⟩ | ⟨source, r₂, n₂, s₂, hp₂, hb₂, hr₂, _, ho₂⟩
  · refine Or.inl ⟨hfail, fun destination' source control r _ hrest => ?_⟩
    rw [hrest, takeAddress_wire] at hp₁
    cases hp₁
    rw [hr₁, takeAddress_wire] at hp₂
    cases hp₂
  rw [ho₂]
  have hrest₂ : r₁ = source.wire ++ r₂ :=
    takeAddress_eq_some (hr₁ ▸ hp₂)
  rcases controlledLength_cases s₂ information with
    ⟨hfail, hnone⟩ | ⟨control, r, hr, hlow, ho⟩
  · refine Or.inl ⟨hfail, fun destination' source' control r hlow hrest => ?_⟩
    rw [hrest, takeAddress_wire] at hp₁
    cases hp₁
    rw [hr₁, takeAddress_wire] at hp₂
    cases hp₂
    exact hnone control r hr₂ hlow
  · rw [hr₂] at hr
    subst hr
    exact Or.inr ⟨destination, source, control, r, s₂.advance 1, hlow,
      by rw [hrest₁, hrest₂], hb₂.trans hb₁, Stream.advance_one_rest hr₂, ho⟩

/-- The packet does not begin with a header that declares its length. -/
def Headless (packet : Buffer) : Prop :=
  ∀ (h : Header) (r : List UInt8), h.format.declared = packet.len →
    packet.bytes ≠ h.wire ++ r

/-- The decoder turns a packet away, or gets behind its header. -/
theorem informationLength_header (packet information : Buffer) :
    ((∃ call, informationLength packet (packetStart packet information) =
        .fail call) ∧
      Headless packet) ∨
    ∃ (h : Header) (r : List UInt8) (stream : Firmware.Stream),
      h.format.declared = packet.len ∧ packet.bytes = h.wire ++ r ∧
      stream.buffer = packet ∧ stream.rest = r ∧
      informationLength packet (packetStart packet information) =
        checkedLength { stream, information } := by
  rw [informationLength, packetStart]
  rcases takes_typeLength.step
    { stream := streamReset packet, information } _ with
    ⟨hp₁, hfail⟩ | ⟨format, r₁, t, s₁, hp₁, hb₁, hr₁, hshown, ho₁⟩
  · refine Or.inl ⟨hfail, fun h r _ hbytes => ?_⟩
    rw [streamReset_rest, hbytes, Header.wire, List.append_assoc,
      takeFormat_wire] at hp₁
    cases hp₁
  -- The format field of any header the packet begins with is this one.
  have hformat : ∀ (h : Header) (r : List UInt8),
      packet.bytes = h.wire ++ r → format = h.format ∧
        r₁ = h.destination.wire ++ (h.source.wire ++ h.control :: r) := by
    intro h r hbytes
    rw [streamReset_rest, hbytes, Header.wire, List.append_assoc,
      takeFormat_wire] at hp₁
    cases hp₁
    refine ⟨rfl, ?_⟩
    simp only [List.append_assoc, List.singleton_append]
  rw [ho₁]
  by_cases hdeclared : format.declared = packet.len
  · rw [Proc.bind_of_ok (Proc.require_of (hshown.length.trans hdeclared))]
    rcases addressedLength_cases s₁ information with
      ⟨hfail, hnone⟩ |
        ⟨destination, source, control, r, stream, hlow, hrest, hb, hr, ho⟩
    · refine Or.inl ⟨hfail, fun h r _ hbytes => ?_⟩
      exact hnone h.destination h.source h.control r h.control_low
        (hr₁.trans (hformat h r hbytes).2)
    · refine Or.inr ⟨⟨format, destination, source, control, hlow⟩, r, stream,
        hdeclared, ?_, hb.trans hb₁, hr, ho⟩
      have hbytes : packet.bytes = format.wire ++ r₁ := takeFormat_eq_some hp₁
      rw [hbytes, ← hr₁, hrest]
      simp only [Header.wire, List.append_assoc, List.singleton_append]
  · refine Or.inl ⟨⟨_, Proc.bind_of_fail
      (Proc.require_of_not fun h =>
        hdeclared (hshown.length.symm.trans h))⟩, fun h r hlen hbytes => ?_⟩
    rw [(hformat h r hbytes).1] at hdeclared
    exact hdeclared hlen

end MBusMeter.Proofs
