import MBusMeter.Firmware.ZigbeeMeter
import Mathlib.Data.List.Induction

/-!
# A value that is remembered and not written

The active power is written to two attributes, and only when it is another one
than the last time. What is compared is the value of the last call, and not
what was written: the value is remembered before the stack is asked, and stays
when the stack refuses. So as long as no write is refused the memory agrees
with both attributes, and a call that is left out is one that would change
nothing. A refused write, however, is not made up for by the same value again,
only by another one.
-/

namespace MBusMeter.Proofs

open Firmware

variable {zb : EspZigbee}

/-! ## One write -/

/-- A write that is accepted holds, whatever was there before. -/
theorem setLocked_holds {attr : Attribute} {value : AttributeVal}
    {state : zb.State}
    (h : (zb.setAttributeVal attr value (zb.lockAcquire state)).1 =
      zb.STATUS_SUCCESS) :
    zb.attributeVal (zb.setLocked attr value state) attr = value := by
  rw [EspZigbee.setLocked, zb.released, zb.stored _ _ _ h, if_pos rfl]

theorem set_other {attr other : Attribute} (h : other ≠ attr)
    (value : AttributeVal) (state : zb.State) :
    zb.attributeVal (zb.setAttributeVal attr value state).2 other =
      zb.attributeVal state other := by
  by_cases hstatus :
      (zb.setAttributeVal attr value state).1 = zb.STATUS_SUCCESS
  · rw [zb.stored _ _ _ hstatus, if_neg h]
  · exact zb.refused _ _ _ hstatus other

theorem activePower_ne_demand : zb.activePower ≠ zb.instantaneousDemand := by
  intro h
  cases congrArg Attribute.endpoint h

/-! ## The two attributes -/

/-- Both attributes hold the power. -/
def Shows (meter : zb.Meter) (powerWatts : Int16) : Prop :=
  zb.attributeVal meter.state zb.activePower = .int16 powerWatts ∧
    zb.attributeVal meter.state zb.instantaneousDemand =
      .int32 powerWatts.toInt32

/-- The stack accepts the two writes of a power, one after the other. -/
def TakesPower (meter : zb.Meter) (powerWatts : Int16) : Prop :=
  ∃ state, zb.setAttributeVal zb.activePower (.int16 powerWatts)
      (zb.lockAcquire meter.state) = (zb.STATUS_SUCCESS, state) ∧
    (zb.setAttributeVal zb.instantaneousDemand (.int32 powerWatts.toInt32)
      state).1 = zb.STATUS_SUCCESS

theorem update_same {meter : zb.Meter} {powerWatts : Int16}
    (h : meter.prev = powerWatts) :
    zb.zigbeeMeterUpdateActivePower powerWatts meter = meter := if_pos h

/-- The value is remembered, whatever becomes of it. -/
theorem update_prev (meter : zb.Meter) (powerWatts : Int16) :
    (zb.zigbeeMeterUpdateActivePower powerWatts meter).prev = powerWatts := by
  rw [EspZigbee.zigbeeMeterUpdateActivePower]
  split
  · next h => exact h
  · dsimp only
    split
    · rfl
    · rfl

/-- Another value that is accepted is shown. -/
theorem update_shows {meter : zb.Meter} {powerWatts : Int16}
    (hne : meter.prev ≠ powerWatts) (h : TakesPower meter powerWatts) :
    Shows (zb.zigbeeMeterUpdateActivePower powerWatts meter) powerWatts := by
  obtain ⟨state, hfirst, hsecond⟩ := h
  have hpower : zb.attributeVal state zb.activePower = .int16 powerWatts := by
    have hstored := zb.stored zb.activePower (.int16 powerWatts)
      (zb.lockAcquire meter.state) (by rw [hfirst]) zb.activePower
    rw [hfirst, if_pos rfl] at hstored
    exact hstored
  rw [EspZigbee.zigbeeMeterUpdateActivePower, if_neg hne, hfirst]
  dsimp only
  rw [if_neg (not_not_intro rfl), Shows, zb.released, zb.released,
    zb.stored _ _ _ hsecond, zb.stored _ _ _ hsecond]
  exact ⟨(if_neg activePower_ne_demand).trans hpower, if_pos rfl⟩

/-- No other attribute is touched, however the writes end. -/
theorem update_other {attr : Attribute} (hpower : attr ≠ zb.activePower)
    (hdemand : attr ≠ zb.instantaneousDemand) (powerWatts : Int16)
    (meter : zb.Meter) :
    zb.attributeVal (zb.zigbeeMeterUpdateActivePower powerWatts meter).state
      attr = zb.attributeVal meter.state attr := by
  rw [EspZigbee.zigbeeMeterUpdateActivePower]
  split
  · rfl
  · dsimp only
    split
    · rw [zb.released, set_other hpower, zb.acquired]
    · rw [zb.released, set_other hdemand, set_other hpower, zb.acquired]

/-! ## Runs -/

def afterCalls (meter : zb.Meter) (calls : List Int16) : zb.Meter :=
  calls.foldl (fun meter powerWatts =>
    zb.zigbeeMeterUpdateActivePower powerWatts meter) meter

theorem afterCalls_snoc (meter : zb.Meter) (calls : List Int16)
    (powerWatts : Int16) :
    afterCalls meter (calls ++ [powerWatts]) =
      zb.zigbeeMeterUpdateActivePower powerWatts (afterCalls meter calls) := by
  simp [afterCalls]

/-- What is remembered is the value of the last call. -/
theorem afterCalls_prev (meter : zb.Meter) (calls : List Int16) :
    (afterCalls meter calls).prev = calls.getLast?.getD meter.prev := by
  induction calls using List.reverseRecOn with
  | nil => rfl
  | append_singleton calls powerWatts _ =>
      rw [afterCalls_snoc, update_prev, List.getLast?_concat]
      rfl

structure Initial (meter : zb.Meter) : Prop where
  prev : meter.prev = 0
  shows : Shows meter 0

theorem Initial.shows_prev {meter : zb.Meter} (h : Initial meter) :
    Shows meter meter.prev := by
  rw [h.prev]
  exact h.shows

/-- When the stack accepts writes at the last call, both attributes hold its
value, exactly when it is another one than that of the call before, or they
have held it already. -/
theorem power_repaired_iff {meter : zb.Meter} (hinit : Initial meter)
    (calls : List Int16) (powerWatts : Int16)
    (haccepts : TakesPower (afterCalls meter calls) powerWatts) :
    Shows (afterCalls meter (calls ++ [powerWatts])) powerWatts ↔
      calls.getLast?.getD 0 ≠ powerWatts ∨
        Shows (afterCalls meter calls) powerWatts := by
  have hprev := afterCalls_prev meter calls
  rw [hinit.prev] at hprev
  rw [afterCalls_snoc, ← hprev]
  by_cases hsame : (afterCalls meter calls).prev = powerWatts
  · rw [update_same hsame]
    exact ⟨Or.inr, fun h => h.elim (absurd hsame) id⟩
  · exact iff_of_true (update_shows hsame haccepts) (Or.inl hsame)

/-- A stack that answers as it is told, and with success when it has not been
told. -/
def scripted : EspZigbee where
  ELECTRICAL_MEASUREMENT := 0x0B04
  METERING := 0x0702
  ACTIVE_POWER_ID := 0x050B
  RMSCURRENT_ID := 0x0508
  RMSVOLTAGE_ID := 0x0505
  INSTANTANEOUS_DEMAND_ID := 0x0400
  CURRENT_SUMMATION_RECEIVED_ID := 0x0001
  CURRENT_SUMMATION_DELIVERED_ID := 0x0000
  CURRENT_TIER1_SUMMATION_RECEIVED_ID := 0x0101
  CURRENT_TIER1_SUMMATION_DELIVERED_ID := 0x0100
  STATUS_SUCCESS := 0
  electricalIds := by decide
  meteringIds := by decide
  State := List Bool × (Attribute → AttributeVal)
  lockAcquire := id
  lockRelease := id
  setAttributeVal := fun attr value state =>
    match state with
    | (false :: answers, held) => (1, (answers, held))
    | (answers, held) =>
        (0, (answers.tail, fun a => if a = attr then value else held a))
  attributeVal := fun state => state.2
  acquired := fun _ _ => rfl
  released := fun _ _ => rfl
  stored := by
    rintro attr value ⟨_ | ⟨_ | _, answers⟩, held⟩ h other
    · rfl
    · simp at h
    · rfl
  refused := by
    rintro attr value ⟨_ | ⟨_ | _, answers⟩, held⟩ h other
    · simp at h
    · rfl
    · simp at h

/-- The meter at first, on such a stack. -/
def scriptedMeter (answers : List Bool) : scripted.Meter where
  prev := 0
  state := (answers, fun a =>
    if a = scripted.activePower then .int16 0 else .int32 0)

theorem scriptedMeter_initial (answers : List Bool) :
    Initial (scriptedMeter answers) := ⟨rfl, rfl, rfl⟩

theorem power_repaired_iff_scripted :
    Shows (afterCalls (scriptedMeter [false]) ([5] ++ [7])) 7 ↔
      [5].getLast?.getD 0 ≠ (7 : Int16) ∨
        Shows (afterCalls (scriptedMeter [false]) [5]) 7 :=
  power_repaired_iff (scriptedMeter_initial [false]) [5] 7 ⟨_, rfl, rfl⟩

/-- A power of 5 W that is refused, and 5 W again. -/
theorem refused_power_not_repaired :
    ¬ ∀ (zb : EspZigbee) (meter : zb.Meter), Initial meter →
      ∀ (calls : List Int16) (powerWatts : Int16),
        TakesPower (afterCalls meter calls) powerWatts →
        Shows (afterCalls meter (calls ++ [powerWatts])) powerWatts := by
  intro h
  have hshows := h scripted _ (scriptedMeter_initial [false]) [5] 5
    ⟨_, rfl, rfl⟩
  exact absurd hshows.1 (by decide +kernel)

end MBusMeter.Proofs
