import MBusMeter.Proofs.MeterAttributes
import MBusMeter.Spec.Endpoints

/-!
# A stack that accepts what it has been set up for

The calls for the meter's places write values their attributes were created
for, so it is enough that the stack accepts these. Nothing is asked of it for
other writes, and nothing before it is in a state from which on it accepts
them. From such a state on each attribute holds the last value there was for
it. The power is the exception, since it may not be written: it holds the last
one when it held the remembered one, or when another has come.
-/

namespace MBusMeter.Proofs

open Lib Firmware Firmware.Pdu Spec

variable {zb : EspZcl}

/-- An energy that fits into 48 bits. -/
def Small : MeterUpdate → Prop
  | .summationReceived energy | .summationDelivered energy
  | .tierSummationReceived _ energy | .tierSummationDelivered _ energy =>
      energy.toNat < 2 ^ 48
  | _ => True

/-- A call for a place of the meter, with a value that fits. -/
def Fitting (u : MeterUpdate) : Prop := channelOf u ∈ channels ∧ Small u

/-! ## The attributes -/

theorem takes_of_mem {ep : Endpoint} {added : AddedAttr} {value : AttributeVal}
    (hep : ep ∈ zb.zigbeeMeterCreateEp) (hadded : added ∈ ep.attrs)
    (h : AddedAttr.takes added value = true) :
    takes zb ⟨ep.endpoint, ep.clusterId, added.attrId⟩ value = true := by
  rw [takes, List.any_eq_true]
  refine ⟨ep, hep, ?_⟩
  rw [Bool.and_eq_true, List.any_eq_true]
  exact ⟨by simp, added, hadded, by simp [h]⟩

theorem metering_mem : zb.createMeteringEp ∈ zb.zigbeeMeterCreateEp :=
  List.mem_cons_self

theorem electrical_mem {phase : Nat} (h : phase < 3) :
    zb.createElectricalMeasurementEp phase ∈ zb.zigbeeMeterCreateEp :=
  List.mem_cons_of_mem _ (List.mem_map_of_mem (List.mem_range.mpr h))

/-- The attributes of metering that hold an energy. -/
theorem takes_energy {attrId : UInt16} (h : attrId ∈
      [zb.CURRENT_SUMMATION_DELIVERED_ID, zb.CURRENT_SUMMATION_RECEIVED_ID,
        zb.CURRENT_TIER1_SUMMATION_DELIVERED_ID,
        zb.CURRENT_TIER1_SUMMATION_RECEIVED_ID,
        zb.CURRENT_TIER2_SUMMATION_DELIVERED_ID,
        zb.CURRENT_TIER2_SUMMATION_RECEIVED_ID]) {energy : UInt64}
    (hsmall : energy.toNat < 2 ^ 48) :
    takes zb ⟨METERING_ENDPOINT_ID, zb.METERING, attrId⟩ (.uint64 energy) =
      true := by
  have hadded : EspZcl.addMetering attrId .u48 true (.updated (.uint64 0)) ∈
      zb.createMeteringEp.attrs := by
    simpa [EspZcl.createMeteringEp, EspZcl.addMetering] using h
  exact takes_of_mem metering_mem hadded (decide_eq_true hsmall)

/-- The attributes each phase has. -/
theorem takes_electrical {phase : Nat} (hphase : phase < 3) {attrId : UInt16}
    (h : attrId ∈ [zb.RMSCURRENT_ID, zb.RMSVOLTAGE_ID]) (value : UInt16) :
    takes zb ⟨EspZigbee.phaseEndpoint phase, zb.ELECTRICAL_MEASUREMENT,
      attrId⟩ (.uint16 value) = true := by
  rcases List.mem_pair.mp h with rfl | rfl
  · have hadded : EspZcl.addElectrical zb.RMSCURRENT_ID
        (.updated (.uint16 0)) ∈
          (zb.createElectricalMeasurementEp phase).attrs := by
      simp [EspZcl.createElectricalMeasurementEp]
    exact takes_of_mem (electrical_mem hphase) hadded rfl
  · have hadded : EspZcl.addElectrical zb.RMSVOLTAGE_ID
        (.updated (.uint16 235)) ∈
          (zb.createElectricalMeasurementEp phase).attrs := by
      simp [EspZcl.createElectricalMeasurementEp]
    exact takes_of_mem (electrical_mem hphase) hadded rfl

theorem takes_activePower (p : Int16) :
    takes zb zb.activePower (.int16 p) = true := by
  have hadded : EspZcl.addElectrical zb.ACTIVE_POWER_ID (.updated (.int16 0)) ∈
      (zb.createElectricalMeasurementEp 0).attrs := by
    simp [EspZcl.createElectricalMeasurementEp]
  exact takes_of_mem (electrical_mem (by decide)) hadded rfl

theorem takes_demand (p : Int16) :
    takes zb zb.instantaneousDemand (.int32 p.toInt32) = true := by
  have hadded : EspZcl.addMetering zb.INSTANTANEOUS_DEMAND_ID .bit24 true
      (.updated (.int32 0)) ∈ zb.createMeteringEp.attrs := by
    simp [EspZcl.createMeteringEp]
  have hlo := Int16.le_toInt p
  have hhi := Int16.toInt_lt p
  refine takes_of_mem metering_mem hadded ?_
  rw [AddedAttr.takes]
  simp only [EspZcl.addMetering, InitialVal.sameType, AttrType.fits,
    Int16.toInt_toInt32, Bool.true_and, decide_eq_true_eq]
  omega

theorem takes_told {u : MeterUpdate} (hu : channelOf u ∈ channels)
    (hsmall : Small u) :
    takes zb (attributeOf zb.toEspZigbee (channelOf u)) (contentOf u) =
      true := by
  have hreceived := zb.tier2Received
  have hdelivered := zb.tier2Delivered
  cases u with
  | activePower p => exact takes_activePower p
  | rmsCurrent phase value =>
      exact takes_electrical (by simp [channels, channelOf] at hu; omega)
        (by simp) value
  | rmsVoltage phase value =>
      exact takes_electrical (by simp [channels, channelOf] at hu; omega)
        (by simp) value
  | summationReceived energy => exact takes_energy (by simp) hsmall
  | summationDelivered energy => exact takes_energy (by simp) hsmall
  | tierSummationReceived tier energy =>
      refine takes_energy ?_ hsmall
      have htier : tier = 0 ∨ tier = 1 := by
        simpa [channels, channelOf] using hu
      rcases htier with rfl | rfl <;> simp [hreceived]
  | tierSummationDelivered tier energy =>
      refine takes_energy ?_ hsmall
      have htier : tier = 0 ∨ tier = 1 := by
        simpa [channels, channelOf] using hu
      rcases htier with rfl | rfl <;> simp [hdelivered]

/-- An energy of the line has 32 bits. -/
theorem small_published {codes : List Code} {values : List Reading}
    {u : MeterUpdate} (h : u ∈ published codes values) : Small u := by
  obtain ⟨⟨code, r⟩, _, hu⟩ := List.mem_flatMap.mp h
  rw [callsOf] at hu
  cases hq : Quantity.ofCode code.bytes with
  | none => rw [hq] at hu; cases hu
  | some q =>
      rw [hq] at hu
      have hword : ∀ v : UInt32, v.toUInt64.toNat < 2 ^ 48 := by
        intro v
        have hlt := v.toNat_lt
        rw [UInt32.toNat_toUInt64]
        omega
      cases q <;> cases r <;> simp only [Quantity.calls] at hu <;>
        first
        | cases hu; done
        | (rw [List.mem_singleton.mp hu]; exact hword _)
        | (rw [List.mem_singleton.mp hu]; trivial)
        | (split at hu
           · cases hu
           · rw [List.mem_singleton.mp hu]; trivial)

/-- What is told about a report fits its place. -/
theorem fitting_published {codes : List Code} {values : List Reading}
    {u : MeterUpdate} (h : u ∈ published codes values) : Fitting u :=
  ⟨channelOf_mem_channels h, small_published h⟩

/-! ## Writes that are accepted -/

/-- In these states, and in all that follow, the stack accepts every write
that the created attributes take. -/
structure AcceptsFrom (zb : EspZcl) (good : zb.State → Prop) : Prop where
  acquired : ∀ {state}, good state → good (zb.lockAcquire state)
  released : ∀ {state}, good state → good (zb.lockRelease state)
  accepted : ∀ {state attr value}, takes zb attr value = true → good state →
    (zb.setAttributeVal attr value state).1 = zb.STATUS_SUCCESS
  written : ∀ {state} attr value, good state →
    good (zb.setAttributeVal attr value state).2

variable {good : zb.State → Prop}

theorem AcceptsFrom.takesPower (h : AcceptsFrom zb good) {meter : zb.Meter}
    (hgood : good meter.state) (powerWatts : Int16) :
    TakesPower meter powerWatts := by
  have hlocked := h.acquired hgood
  exact ⟨_, Prod.ext (h.accepted (takes_activePower _) hlocked) rfl,
    h.accepted (takes_demand _) (h.written _ _ hlocked)⟩

theorem AcceptsFrom.update (h : AcceptsFrom zb good) {meter : zb.Meter}
    (hgood : good meter.state) (u : MeterUpdate) :
    good (zb.zigbeeMeterUpdate meter u).state := by
  by_cases hpower : channelOf u = .activePower
  · cases u with
    | activePower p =>
        have hwritten := h.written zb.activePower (.int16 p)
          (h.acquired hgood)
        rw [EspZigbee.zigbeeMeterUpdate,
          EspZigbee.zigbeeMeterUpdateActivePower]
        split
        · exact hgood
        · dsimp only
          split
          · exact h.released hwritten
          · exact h.released (h.written _ _ hwritten)
    | _ => cases hpower
  · rw [zigbeeMeterUpdate_write hpower]
    exact h.released (h.written _ _ (h.acquired hgood))

theorem AcceptsFrom.holds (h : AcceptsFrom zb good) {meter : zb.Meter}
    (hgood : good meter.state) {u : MeterUpdate} (hu : Fitting u)
    (hne : channelOf u ≠ .activePower) :
    Holds (zb.zigbeeMeterUpdate meter u) u := by
  rw [zigbeeMeterUpdate_write hne]
  refine ⟨setLocked_holds (h.accepted (takes_told hu.1 hu.2)
    (h.acquired hgood)), fun p hp => ?_⟩
  rw [hp] at hne
  exact absurd rfl hne

theorem AcceptsFrom.run (h : AcceptsFrom zb good) (us : List MeterUpdate) :
    ∀ {meter : zb.Meter}, good meter.state →
      good (us.foldl zb.zigbeeMeterUpdate meter).state := by
  induction us with
  | nil => exact fun hgood => hgood
  | cons u us ih => exact fun hgood => ih (h.update hgood u)

/-- What there is a value for holds the last one, but for the power. -/
theorem AcceptsFrom.holds_shown (h : AcceptsFrom zb good) {meter : zb.Meter}
    (hgood : good meter.state) {us : List MeterUpdate}
    (hus : ∀ u ∈ us, Fitting u) {channel : Channel}
    (hne : channel ≠ .activePower) {u : MeterUpdate}
    (hu : shown channel us = some u) :
    Holds (us.foldl zb.zigbeeMeterUpdate meter) u := by
  induction us using List.reverseRecOn with
  | nil => simp [shown, lastOn] at hu
  | append_singleton us u' ih =>
      have hchannel := channel_of_lastOn hu
      have hmem := hus u (List.mem_of_mem_filter (List.mem_of_getLast? hu))
      rw [List.foldl_append]
      rw [shown, lastOn_snoc] at hu
      split at hu
      · next hsame =>
          cases hu
          exact h.holds (h.run us hgood) hmem (by rw [hchannel]; exact hne)
      · next hother =>
          have hbefore := ih (fun x hx => hus x (List.mem_append_left _ hx)) hu
          exact hbefore.update hmem.1 (hus u' (by simp)).1 (by
            rw [hchannel]
            exact Ne.symm hother)

/-! ## The power -/

/-- A value for another attribute leaves the power alone. -/
theorem shows_update_other {u : MeterUpdate} (hu : channelOf u ∈ channels)
    (hne : channelOf u ≠ .activePower) (meter : zb.Meter) (p : Int16) :
    Shows (zb.zigbeeMeterUpdate meter u) p ↔ Shows meter p := by
  have hpower : zb.activePower ≠
      attributeOf zb.toEspZigbee (channelOf u) :=
    attributeOf_ne List.mem_cons_self hu (Ne.symm hne)
  rw [Shows, Shows, zigbeeMeterUpdate_frame hpower fun h => absurd h hne,
    zigbeeMeterUpdate_frame (attributeOf_ne_demand hu).symm
      fun h => absurd h hne]

theorem prev_update_other {u : MeterUpdate} (hne : channelOf u ≠ .activePower)
    (meter : zb.Meter) : (zb.zigbeeMeterUpdate meter u).prev = meter.prev := by
  rw [zigbeeMeterUpdate_write hne]

/-- Among the values there is a power that is not the one remembered. -/
def BringsOther (prev : Int16) (us : List MeterUpdate) : Prop :=
  ∃ p, .activePower p ∈ us ∧ p ≠ prev

/-- Either a power has been written, and the one remembered is shown since; or
none has been, and everything about the power is as it was. -/
theorem AcceptsFrom.power_run (h : AcceptsFrom zb good) {meter : zb.Meter}
    (hgood : good meter.state) {us : List MeterUpdate}
    (hus : ∀ u ∈ us, channelOf u ∈ channels) :
    BringsOther meter.prev us ∧ Shows (us.foldl zb.zigbeeMeterUpdate meter)
        (us.foldl zb.zigbeeMeterUpdate meter).prev ∨
      ¬ BringsOther meter.prev us ∧
        (us.foldl zb.zigbeeMeterUpdate meter).prev = meter.prev ∧
        ∀ p, Shows (us.foldl zb.zigbeeMeterUpdate meter) p ↔
          Shows meter p := by
  induction us using List.reverseRecOn with
  | nil =>
      refine Or.inr ⟨fun hother => ?_, rfl, fun _ => Iff.rfl⟩
      obtain ⟨p, hp, _⟩ := hother
      cases hp
  | append_singleton us u ih =>
      have hfront := ih fun x hx => hus x (List.mem_append_left _ hx)
      have hgood' := h.run us hgood
      rw [List.foldl_append, List.foldl_cons, List.foldl_nil]
      generalize us.foldl zb.zigbeeMeterUpdate meter = m at hfront hgood' ⊢
      by_cases hpower : channelOf u = .activePower
      · cases u with
        | activePower p =>
            have hsnoc : BringsOther meter.prev (us ++ [.activePower p]) ↔
                BringsOther meter.prev us ∨ p ≠ meter.prev := by
              simp [BringsOther, or_and_right, exists_or]
            rw [hsnoc]
            show _ ∧ Shows (zb.zigbeeMeterUpdateActivePower p m)
              (zb.zigbeeMeterUpdateActivePower p m).prev ∨ _ ∧
              (zb.zigbeeMeterUpdateActivePower p m).prev = _ ∧ ∀ q,
                (Shows (zb.zigbeeMeterUpdateActivePower p m) q ↔ _)
            by_cases hsame : m.prev = p
            · rw [update_same hsame]
              rcases hfront with ⟨hother, hshows⟩ | ⟨hnone, hprev, hkept⟩
              · exact Or.inl ⟨Or.inl hother, hshows⟩
              · exact Or.inr ⟨not_or.mpr ⟨hnone, not_not_intro
                  (hsame.symm.trans hprev)⟩, hprev, hkept⟩
            · rw [update_prev]
              refine Or.inl ⟨?_, update_shows hsame (h.takesPower hgood' p)⟩
              rcases hfront with ⟨hother, _⟩ | ⟨_, hprev, _⟩
              · exact Or.inl hother
              · exact Or.inr fun heq => hsame (hprev.trans heq.symm)
        | _ => cases hpower
      · have hsnoc : BringsOther meter.prev (us ++ [u]) ↔
            BringsOther meter.prev us := by
          have hu : ∀ p, u ≠ .activePower p := by
            rintro p rfl
            exact hpower rfl
          simp [BringsOther, fun p => (hu p).symm]
        have hkept := shows_update_other (hus u (by simp)) hpower m
        rw [hsnoc, prev_update_other hpower, hkept]
        rcases hfront with hwritten | ⟨hnone, hprev, hsame⟩
        · exact Or.inl hwritten
        · exact Or.inr ⟨hnone, hprev, fun p => (hkept p).trans (hsame p)⟩

/-- The power that comes last is remembered, whatever the stack answers. -/
theorem prev_of_shown {us : List MeterUpdate} {p : Int16}
    (hp : shown .activePower us = some (.activePower p)) (meter : zb.Meter) :
    (us.foldl zb.zigbeeMeterUpdate meter).prev = p := by
  induction us using List.reverseRecOn with
  | nil => simp [shown, lastOn] at hp
  | append_singleton us u ih =>
      rw [List.foldl_append]
      rw [shown, lastOn_snoc] at hp
      split at hp
      · cases hp
        exact update_prev _ p
      · next hne =>
          exact (prev_update_other hne _).trans (ih hp)

theorem AcceptsFrom.power_shown (h : AcceptsFrom zb good) {meter : zb.Meter}
    (hgood : good meter.state) {us : List MeterUpdate}
    (hus : ∀ u ∈ us, channelOf u ∈ channels) {p : Int16}
    (hp : shown .activePower us = some (.activePower p)) :
    Shows (us.foldl zb.zigbeeMeterUpdate meter) p ↔
      Shows meter p ∨ BringsOther meter.prev us := by
  have hprev := prev_of_shown hp meter
  rcases h.power_run hgood hus with ⟨hother, hshows⟩ | ⟨hnone, _, hkept⟩
  · rw [hprev] at hshows
    exact iff_of_true hshows (Or.inr hother)
  · rw [hkept p]
    exact ⟨Or.inl, fun hor => hor.resolve_right hnone⟩

/-- When the attributes of the power hold the one remembered, it is the
exception no longer. -/
theorem AcceptsFrom.holds_last (h : AcceptsFrom zb good) {meter : zb.Meter}
    (hgood : good meter.state) (hshows : Shows meter meter.prev)
    {us : List MeterUpdate} (hus : ∀ u ∈ us, Fitting u) {channel : Channel}
    {u : MeterUpdate} (hu : shown channel us = some u) :
    Holds (us.foldl zb.zigbeeMeterUpdate meter) u := by
  by_cases hne : channel = .activePower
  · subst hne
    have hpower := channel_of_lastOn hu
    cases u with
    | activePower p =>
        refine holds_activePower.mpr
          ((h.power_shown hgood (fun u hu => (hus u hu).1) hu).mpr ?_)
        by_cases hsame : p = meter.prev
        · rw [hsame]
          exact Or.inl hshows
        · have hmem := List.mem_of_mem_filter (List.mem_of_getLast? hu)
          exact Or.inr ⟨p, hmem, hsame⟩
    | _ => cases hpower
  · exact h.holds_shown hgood hus hne hu

/-! ## Stacks that do -/

/-- To turn away what the created attributes do not take does no harm. -/
theorem AcceptsFrom.guarded (h : AcceptsFrom zb good) :
    AcceptsFrom (guarded zb) good where
  acquired := h.acquired
  released := h.released
  accepted := by
    intro state attr value htakes hgood
    exact (congrArg Prod.fst (if_pos htakes)).trans (h.accepted htakes hgood)
  written := by
    intro state attr value hgood
    show good (if takes zb attr value then zb.setAttributeVal attr value state
      else (zb.STATUS_SUCCESS + 1, state)).2
    split
    · exact h.written attr value hgood
    · exact hgood

theorem onGuarded_initial {meter : zb.Meter} (h : Initial meter) :
    Initial (onGuarded meter) := ⟨h.prev, h.shows⟩

/-- The scripted stack, with all its constants. -/
def scriptedZcl : EspZcl where
  __ := scripted
  MEASUREMENT_TYPE_ID := 0x0000
  ACCURRENT_DIVISOR_ID := 0x0603
  METERING_DEVICE_TYPE_ID := 0x0306
  UNIT_OF_MEASURE_ID := 0x0300
  SUMMATION_FORMATTING_ID := 0x0303
  DEMAND_FORMATTING_ID := 0x0304
  DIVISOR_ID := 0x0302
  CURRENT_TIER2_SUMMATION_RECEIVED_ID := 0x0103
  CURRENT_TIER2_SUMMATION_DELIVERED_ID := 0x0102
  ELECTRIC_METERING := 0
  allElectricalIds := by decide
  allMeteringIds := by decide
  tier2Received := by decide
  tier2Delivered := by decide

/-- The scripted stack, when its script is at an end. -/
theorem scripted_acceptsFrom :
    AcceptsFrom scriptedZcl fun state => state.1 = [] where
  acquired h := h
  released h := h
  accepted := by
    rintro ⟨_, held⟩ attr value _ rfl
    rfl
  written := by
    rintro ⟨_, held⟩ attr value rfl
    rfl

end MBusMeter.Proofs
