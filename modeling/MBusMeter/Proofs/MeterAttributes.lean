import MBusMeter.Proofs.PduPower
import MBusMeter.Proofs.ZigbeeMeter

/-!
# From the report to the attributes

Every place of the meter is an attribute of its own, the active power has two.
A call writes the attributes of its own place and leaves the others alone,
whatever the stack answers; so what is held in one place stays when the meter
is told about another. All that is told about a report goes to places the
meter has.
-/

namespace MBusMeter.Proofs

open Lib Firmware Firmware.Pdu Spec

variable {zb : EspZigbee}

/-! ## Attributes -/

/-- The attribute of a place; of the active power, the first. -/
def attributeOf (zb : EspZigbee) : Channel → Attribute
  | .activePower => zb.activePower
  | .rmsCurrent phase => ⟨EspZigbee.phaseEndpoint phase,
      zb.ELECTRICAL_MEASUREMENT, zb.RMSCURRENT_ID⟩
  | .rmsVoltage phase => ⟨EspZigbee.phaseEndpoint phase,
      zb.ELECTRICAL_MEASUREMENT, zb.RMSVOLTAGE_ID⟩
  | .summationReceived => ⟨METERING_ENDPOINT_ID, zb.METERING,
      zb.CURRENT_SUMMATION_RECEIVED_ID⟩
  | .summationDelivered => ⟨METERING_ENDPOINT_ID, zb.METERING,
      zb.CURRENT_SUMMATION_DELIVERED_ID⟩
  | .tierSummationReceived tier => ⟨METERING_ENDPOINT_ID, zb.METERING,
      zb.CURRENT_TIER1_SUMMATION_RECEIVED_ID + 2 * tier.toUInt16⟩
  | .tierSummationDelivered tier => ⟨METERING_ENDPOINT_ID, zb.METERING,
      zb.CURRENT_TIER1_SUMMATION_DELIVERED_ID + 2 * tier.toUInt16⟩

/-- What is written. -/
def contentOf : MeterUpdate → AttributeVal
  | .activePower powerWatts => .int16 powerWatts
  | .rmsCurrent _ currentAmps => .uint16 currentAmps
  | .rmsVoltage _ voltageVolts => .uint16 voltageVolts
  | .summationReceived energy => .uint64 energy
  | .summationDelivered energy => .uint64 energy
  | .tierSummationReceived _ energy => .uint64 energy
  | .tierSummationDelivered _ energy => .uint64 energy

/-- The places the meter has: three phases and two tiers. -/
def channels : List Channel :=
  [.activePower, .rmsCurrent 0, .rmsCurrent 1, .rmsCurrent 2, .rmsVoltage 0,
    .rmsVoltage 1, .rmsVoltage 2, .summationReceived, .summationDelivered,
    .tierSummationReceived 0, .tierSummationReceived 1,
    .tierSummationDelivered 0, .tierSummationDelivered 1]

/-- The functions that write what they are given. -/
theorem zigbeeMeterUpdate_write {u : MeterUpdate}
    (h : channelOf u ≠ .activePower) (meter : zb.Meter) :
    zb.zigbeeMeterUpdate meter u = { meter with
      state := zb.setLocked (attributeOf zb (channelOf u)) (contentOf u)
        meter.state } := by
  cases u with
  | activePower p => exact absurd rfl h
  | _ => rfl

/-- No attribute is the attribute of two places. -/
theorem attributes_nodup (zb : EspZigbee) :
    (zb.instantaneousDemand :: channels.map (attributeOf zb)).Nodup := by
  have helectrical := zb.electricalIds
  have hmetering := zb.meteringIds
  simp only [List.nodup_cons, List.mem_cons, List.not_mem_nil, or_false,
    not_or, not_false_eq_true, List.nodup_nil, and_true]
    at helectrical hmetering
  simp [channels, attributeOf, EspZigbee.instantaneousDemand,
    EspZigbee.activePower, EspZigbee.phaseEndpoint, METERING_ENDPOINT_ID,
    ELECTRICAL_MEASUREMENT_ENDPOINT_FIRST_ID, helectrical, hmetering]

theorem attributeOf_ne {c c' : Channel} (h : c ∈ channels)
    (h' : c' ∈ channels) (hne : c ≠ c') :
    attributeOf zb c ≠ attributeOf zb c' := fun heq =>
  hne (List.inj_on_of_nodup_map (List.nodup_cons.mp (attributes_nodup zb)).2
    h h' heq)

theorem attributeOf_ne_demand {channel : Channel} (h : channel ∈ channels) :
    attributeOf zb channel ≠ zb.instantaneousDemand := fun heq =>
  (List.nodup_cons.mp (attributes_nodup zb)).1
    (heq ▸ List.mem_map_of_mem h)

/-! ## One call -/

/-- A call writes the attributes of its own place and no other. -/
theorem zigbeeMeterUpdate_frame {u : MeterUpdate} {attr : Attribute}
    (hattr : attr ≠ attributeOf zb (channelOf u))
    (hdemand : channelOf u = .activePower → attr ≠ zb.instantaneousDemand)
    (meter : zb.Meter) :
    zb.attributeVal (zb.zigbeeMeterUpdate meter u).state attr =
      zb.attributeVal meter.state attr := by
  by_cases hpower : channelOf u = .activePower
  · cases u with
    | activePower p => exact update_other hattr (hdemand hpower) p meter
    | _ => cases hpower
  · rw [zigbeeMeterUpdate_write hpower, EspZigbee.setLocked, zb.released,
      set_other hattr, zb.acquired]

/-- None of the calls is about the attribute. -/
def Spared (zb : EspZigbee) (attr : Attribute) (us : List MeterUpdate) :
    Prop :=
  ∀ u ∈ us, attr ≠ attributeOf zb (channelOf u) ∧
    (channelOf u = .activePower → attr ≠ zb.instantaneousDemand)

/-- An attribute that is spared holds what it held. -/
theorem Spared.kept {attr : Attribute} {us : List MeterUpdate}
    (h : Spared zb attr us) (meter : zb.Meter) :
    zb.attributeVal (us.foldl zb.zigbeeMeterUpdate meter).state attr =
      zb.attributeVal meter.state attr := by
  induction us generalizing meter with
  | nil => rfl
  | cons u us ih =>
      obtain ⟨hattr, hdemand⟩ := h u List.mem_cons_self
      rw [List.foldl_cons, ih fun u' hu' => h u' (List.mem_cons_of_mem u hu'),
        zigbeeMeterUpdate_frame hattr hdemand]

/-- The value is in its attribute, and a power in the second one as well. -/
def Holds (meter : zb.Meter) (u : MeterUpdate) : Prop :=
  zb.attributeVal meter.state (attributeOf zb (channelOf u)) = contentOf u ∧
    ∀ p, u = .activePower p →
      zb.attributeVal meter.state zb.instantaneousDemand = .int32 p.toInt32

theorem holds_activePower {meter : zb.Meter} {p : Int16} :
    Holds meter (.activePower p) ↔ Shows meter p :=
  ⟨fun h => ⟨h.1, h.2 p rfl⟩, fun h => ⟨h.1, fun _ hp => by
    cases hp
    exact h.2⟩⟩

/-- What is held in another place stays. -/
theorem Holds.update {meter : zb.Meter} {u u' : MeterUpdate}
    (h : Holds meter u) (hu : channelOf u ∈ channels)
    (hu' : channelOf u' ∈ channels) (hne : channelOf u ≠ channelOf u') :
    Holds (zb.zigbeeMeterUpdate meter u') u := by
  refine ⟨?_, fun p hp => ?_⟩
  · rw [zigbeeMeterUpdate_frame (attributeOf_ne hu hu' hne)
      fun _ => attributeOf_ne_demand hu]
    exact h.1
  · have hother : channelOf u' ≠ .activePower := by
      rw [hp] at hne
      exact hne.symm
    rw [zigbeeMeterUpdate_frame (attributeOf_ne_demand hu').symm
      fun hpower => absurd hpower hother]
    exact h.2 p hp

/-! ## Reports -/

/-- What is told about a report goes to places the meter has. -/
theorem channelOf_mem_channels {codes : List Code} {values : List Reading}
    {u : MeterUpdate} (h : u ∈ published codes values) :
    channelOf u ∈ channels := by
  rw [published_eq_told, told, List.mem_flatMap] at h
  obtain ⟨x, _, hu⟩ := h
  obtain ⟨q, _, hq⟩ := Option.bind_eq_some_iff.mp (callsOf_onChannel x u hu)
  have hall : ∀ q ∈ Quantity.all, ∀ c ∈ q.channel, c ∈ channels := by decide
  exact hall q (Quantity.mem_all q) _ hq

end MBusMeter.Proofs
