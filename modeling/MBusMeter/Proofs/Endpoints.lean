import MBusMeter.Proofs.Device
import MBusMeter.Spec.Endpoints

/-!
# What is written has been created

The update functions and the functions that create the attributes have nothing
in common but the names of the constants. So that they fit together is a
property of every call that is ever made: its attribute has been created, with
the type it is written in, the value fits the width that was declared, and the
coordinator is told of it. A stack that turns away everything else makes no
difference.
-/

namespace MBusMeter.Proofs

open Lib Firmware Firmware.Pdu Spec

variable {zb : EspZcl}

/-! ## One call -/

theorem guarded_set {attr : Attribute} {value : AttributeVal}
    (h : takes zb attr value = true) (state : zb.State) :
    (guarded zb).setAttributeVal attr value state =
      zb.setAttributeVal attr value state := if_pos h

/-- Another power is written once, and once more if that is accepted. -/
theorem update_of_set {zb : EspZigbee} {meter : zb.Meter} {p : Int16}
    (hne : meter.prev ≠ p) {r : UInt8 × zb.State}
    (hset : zb.setAttributeVal zb.activePower (.int16 p)
      (zb.lockAcquire meter.state) = r) :
    zb.zigbeeMeterUpdateActivePower p meter =
      { prev := p
        state := zb.lockRelease (if r.1 ≠ zb.STATUS_SUCCESS then r.2
          else (zb.setAttributeVal zb.instantaneousDemand
            (.int32 p.toInt32) r.2).2) } := by
  rw [EspZigbee.zigbeeMeterUpdateActivePower, if_neg hne, hset]
  dsimp only
  split <;> rfl

theorem guarded_power (p : Int16) (meter : zb.Meter) :
    (guarded zb).zigbeeMeterUpdateActivePower p (onGuarded meter) =
      onGuarded (zb.zigbeeMeterUpdateActivePower p meter) := by
  by_cases hsame : meter.prev = p
  · rw [update_same hsame]
    exact update_same hsame
  · have hpower := guarded_set (takes_activePower p)
      (zb.lockAcquire meter.state)
    have hdemand := fun state : zb.State =>
      guarded_set (takes_demand p) state
    rw [update_of_set hsame rfl]
    refine (@update_of_set (guarded zb).toEspZigbee (onGuarded meter) p hsame _
      hpower).trans ?_
    congr 2
    exact ite_congr rfl (fun _ => rfl) fun _ => congrArg Prod.snd (hdemand _)

theorem guarded_update {u : MeterUpdate} (hu : Fitting u)
    (meter : zb.Meter) :
    (guarded zb).zigbeeMeterUpdate (onGuarded meter) u =
      onGuarded (zb.zigbeeMeterUpdate meter u) := by
  by_cases hpower : channelOf u = .activePower
  · cases u with
    | activePower p => exact guarded_power p meter
    | _ => cases hpower
  · have hset := guarded_set (takes_told hu.1 hu.2)
      (zb.lockAcquire meter.state)
    rw [zigbeeMeterUpdate_write hpower, zigbeeMeterUpdate_write hpower]
    exact congrArg (fun r : UInt8 × zb.State =>
      (⟨meter.prev, zb.lockRelease r.2⟩ : (guarded zb).Meter)) hset

/-! ## The writes -/

/-- Another power is asked for twice, if the first write is accepted. -/
theorem recorded_power {p : Int16} {meter : (recorded zb).Meter}
    (hne : meter.prev ≠ p) :
    ((recorded zb).zigbeeMeterUpdateActivePower p meter).state.2 =
      meter.state.2 ++ (zb.activePower, .int16 p) ::
        if (zb.setAttributeVal zb.activePower (.int16 p)
          (zb.lockAcquire meter.state.1)).1 = zb.STATUS_SUCCESS then
          [(zb.instantaneousDemand, .int32 p.toInt32)]
        else [] := by
  rw [@update_of_set (recorded zb).toEspZigbee meter p hne _ rfl]
  by_cases hstatus : (zb.setAttributeVal zb.activePower (.int16 p)
      (zb.lockAcquire meter.state.1)).1 = zb.STATUS_SUCCESS
  · rw [if_pos hstatus]
    refine (congrArg Prod.snd (if_neg (not_not_intro hstatus))).trans ?_
    exact List.append_assoc ..
  · rw [if_neg hstatus]
    exact congrArg Prod.snd (if_pos hstatus)

/-- Every other value is asked for once. -/
theorem recorded_write {u : MeterUpdate} (hne : channelOf u ≠ .activePower)
    (meter : (recorded zb).Meter) :
    ((recorded zb).zigbeeMeterUpdate meter u).state.2 = meter.state.2 ++
      [(attributeOf zb.toEspZigbee (channelOf u), contentOf u)] := by
  rw [zigbeeMeterUpdate_write hne]
  rfl

/-- A call asks for a write to its own attribute, unless it is left out, and
for no other but the second one of the power. -/
theorem recorded_update (u : MeterUpdate) (meter : (recorded zb).Meter) :
    ∃ ws, ((recorded zb).zigbeeMeterUpdate meter u).state.2 =
        meter.state.2 ++ ws ∧
      (∀ w ∈ ws,
        w = (attributeOf zb.toEspZigbee (channelOf u), contentOf u) ∨
        ∃ p, u = .activePower p ∧
          w = (zb.instantaneousDemand, .int32 p.toInt32)) ∧
      ((∀ p, u = .activePower p → meter.prev ≠ p) →
        (attributeOf zb.toEspZigbee (channelOf u), contentOf u) ∈ ws) := by
  by_cases hpower : channelOf u = .activePower
  · cases u with
    | activePower p =>
        by_cases hsame : meter.prev = p
        · refine ⟨[], ?_, nofun, fun hne => absurd hsame (hne p rfl)⟩
          rw [List.append_nil]
          exact congrArg (fun m : (recorded zb).Meter => m.state.2)
            (update_same hsame)
        · refine ⟨_, recorded_power hsame, fun w hw => ?_,
            fun _ => List.mem_cons_self⟩
          rcases List.mem_cons.mp hw with rfl | hw
          · exact Or.inl rfl
          · split at hw
            · exact Or.inr ⟨p, rfl, List.mem_singleton.mp hw⟩
            · cases hw
    | _ => cases hpower
  · exact ⟨_, recorded_write hpower meter,
      fun w hw => Or.inl (List.mem_singleton.mp hw),
      fun _ => List.mem_singleton_self _⟩

/-! ## The tables -/

/-- The attributes of the entries of both tables, written out. -/
theorem mem_reported {attr : Attribute} : attr ∈ reported zb ↔
    attr = zb.instantaneousDemand ∨ ∃ channel ∈ channels,
      attributeOf zb.toEspZigbee channel = attr := by
  have hreceived := zb.tier2Received
  have hdelivered := zb.tier2Delivered
  simp [reported, EspZcl.zigbeeMeterConfigureReporting,
    EspZcl.configureMeteringReporting, EspZcl.reportingInfo,
    EspZcl.configureElectricalMeasurementReporting, List.range,
    List.range.loop, channels, attributeOf, EspZigbee.activePower,
    EspZigbee.instantaneousDemand, hreceived, hdelivered, eq_comm]
  tauto

theorem reported_nodup : (reported zb).Nodup := by
  have helectrical := zb.allElectricalIds
  have hmetering := zb.allMeteringIds
  simp only [List.nodup_cons, List.mem_cons, List.not_mem_nil, or_false,
    not_or, not_false_eq_true, List.nodup_nil, and_true]
    at helectrical hmetering
  simp [reported, EspZcl.zigbeeMeterConfigureReporting,
    EspZcl.configureMeteringReporting, EspZcl.reportingInfo,
    EspZcl.configureElectricalMeasurementReporting, List.range,
    List.range.loop, METERING_ENDPOINT_ID, EspZigbee.phaseEndpoint,
    ELECTRICAL_MEASUREMENT_ENDPOINT_FIRST_ID, helectrical, hmetering]

theorem created_nodup : (created zb).Nodup := by
  have helectrical := zb.allElectricalIds
  have hmetering := zb.allMeteringIds
  simp only [List.nodup_cons, List.mem_cons, List.not_mem_nil, or_false,
    not_or, not_false_eq_true, List.nodup_nil, and_true]
    at helectrical hmetering
  simp [created, EspZcl.zigbeeMeterCreateEp, EspZcl.createMeteringEp,
    EspZcl.createElectricalMeasurementEp, EspZcl.addMetering,
    EspZcl.addElectrical, List.range, List.range.loop, METERING_ENDPOINT_ID,
    EspZigbee.phaseEndpoint, ELECTRICAL_MEASUREMENT_ENDPOINT_FIRST_ID,
    helectrical, hmetering]

theorem created_of_takes {attr : Attribute} {value : AttributeVal}
    (h : takes zb attr value = true) : attr ∈ created zb := by
  rw [takes, List.any_eq_true] at h
  obtain ⟨ep, hep, h⟩ := h
  rw [Bool.and_eq_true, Bool.and_eq_true, List.any_eq_true,
    decide_eq_true_eq, decide_eq_true_eq] at h
  obtain ⟨⟨hendpoint, hcluster⟩, added, hadded, h⟩ := h
  rw [Bool.and_eq_true, decide_eq_true_eq] at h
  refine List.mem_flatMap.mpr ⟨ep, hep, List.mem_map.mpr ⟨added, hadded, ?_⟩⟩
  rw [hendpoint, hcluster, h.1]

/-- There is a call for every place. -/
theorem exists_told {prev p : Int16} (hne : prev ≠ p) (channel : Channel) :
    ∃ u, channelOf u = channel ∧
      (∀ q, u = .activePower q → prev ≠ q) ∧ Small u := by
  cases channel with
  | activePower =>
      exact ⟨.activePower p, rfl, fun q hq => by cases hq; exact hne, trivial⟩
  | rmsCurrent phase => exact ⟨.rmsCurrent phase 0, rfl, nofun, trivial⟩
  | rmsVoltage phase => exact ⟨.rmsVoltage phase 0, rfl, nofun, trivial⟩
  | summationReceived =>
      exact ⟨.summationReceived 0, rfl, nofun, by simp [Small]⟩
  | summationDelivered =>
      exact ⟨.summationDelivered 0, rfl, nofun, by simp [Small]⟩
  | tierSummationReceived tier =>
      exact ⟨.tierSummationReceived tier 0, rfl, nofun, by simp [Small]⟩
  | tierSummationDelivered tier =>
      exact ⟨.tierSummationDelivered tier 0, rfl, nofun, by simp [Small]⟩

theorem created_of_reported {attr : Attribute} (h : attr ∈ reported zb) :
    attr ∈ created zb := by
  rcases mem_reported.mp h with rfl | ⟨channel, hchannel, rfl⟩
  · exact created_of_takes (takes_demand 0)
  · obtain ⟨u, rfl, _, hsmall⟩ :=
      exists_told (by decide : (0 : Int16) ≠ 1) channel
    exact created_of_takes (takes_told hchannel hsmall)

/-! ## What is asked for -/

/-- A write that the functions ask for can be reported, and is taken. -/
theorem reported_takes {u : MeterUpdate} (hu : Fitting u)
    {w : Attribute × AttributeVal}
    (hw : w = (attributeOf zb.toEspZigbee (channelOf u), contentOf u) ∨
      ∃ p, u = .activePower p ∧
        w = (zb.instantaneousDemand, .int32 p.toInt32)) :
    w.1 ∈ reported zb ∧ takes zb w.1 w.2 = true := by
  rcases hw with rfl | ⟨p, rfl, rfl⟩
  · exact ⟨mem_reported.mpr (Or.inr ⟨_, hu.1, rfl⟩), takes_told hu.1 hu.2⟩
  · exact ⟨mem_reported.mpr (Or.inl rfl), takes_demand p⟩

theorem asked_reported {meter : zb.Meter} {u : MeterUpdate} (hu : Fitting u)
    {w : Attribute × AttributeVal} (hw : w ∈ asked zb meter u) :
    w.1 ∈ reported zb ∧ takes zb w.1 w.2 = true := by
  obtain ⟨ws, hasked, hws, _⟩ := recorded_update u (onRecorded meter)
  rw [asked, hasked, onRecorded, List.nil_append] at hw
  exact reported_takes hu (hws w hw)

/-- On a stack that accepts its writes there is none that is not asked for. -/
theorem exists_asked {good : zb.State → Prop} (h : AcceptsFrom zb good)
    {meter : zb.Meter} (hgood : good meter.state) {attr : Attribute}
    (hattr : attr ∈ reported zb) :
    ∃ u, Fitting u ∧ ∃ value, (attr, value) ∈ asked zb meter u := by
  obtain ⟨p, hne⟩ : ∃ p : Int16, meter.prev ≠ p := by
    by_cases hzero : meter.prev = 0
    · exact ⟨1, by rw [hzero]; decide⟩
    · exact ⟨0, hzero⟩
  rcases mem_reported.mp hattr with rfl | ⟨channel, hchannel, rfl⟩
  · refine ⟨.activePower p, ⟨List.mem_cons_self, trivial⟩, .int32 p.toInt32, ?_⟩
    have haccepted : (zb.setAttributeVal zb.activePower (.int16 p)
        (zb.lockAcquire meter.state)).1 = zb.STATUS_SUCCESS :=
      h.accepted (takes_activePower p) (h.acquired hgood)
    have hasked := @recorded_power zb p (onRecorded meter) hne
    rw [onRecorded, if_pos haccepted] at hasked
    show _ ∈ ((recorded zb).zigbeeMeterUpdateActivePower p
      (onRecorded meter)).state.2
    rw [onRecorded, hasked]
    exact List.mem_append_right _ (List.mem_cons_of_mem _ List.mem_cons_self)
  · obtain ⟨u, hu, hother, hsmall⟩ := exists_told hne channel
    obtain ⟨ws, hasked, _, hmem⟩ := recorded_update u (onRecorded meter)
    refine ⟨u, ⟨by rw [hu]; exact hchannel, hsmall⟩, contentOf u, ?_⟩
    rw [asked, hasked, ← hu]
    exact List.mem_append_right _ (hmem hother)

/-! ## Both tasks -/

theorem guarded_finish {u : MeterUpdate} (hu : Fitting u) (state : zb.State) :
    ((guarded zb).underLock u).finish state =
      (zb.underLock u).finish state := by
  obtain ⟨prev, hprev⟩ := exists_other u
  rw [finish_underLock hprev]
  exact (@finish_underLock (guarded zb).toEspZigbee u prev hprev state).trans
    (congrArg EspZigbee.Meter.state (guarded_update hu ⟨prev, state⟩))

/-- Every write asked for under the lock is one of a call, and every call has
its own. -/
theorem recorded_inOrder {ι : Type} {begun : List (ι × MeterUpdate)}
    (h : ∀ x ∈ begun, Fitting x.2) {state : (recorded zb).State}
    (hstate : state.2 = []) :
    (∀ w ∈ (inOrder (recorded zb).underLock begun state).2,
      w.1 ∈ reported zb ∧ takes zb w.1 w.2 = true) ∧
    ∀ x ∈ begun, (attributeOf zb.toEspZigbee (channelOf x.2), contentOf x.2) ∈
      (inOrder (recorded zb).underLock begun state).2 := by
  induction begun using List.reverseRecOn with
  | nil =>
      refine ⟨fun w hw => ?_, nofun⟩
      rw [show (inOrder (recorded zb).underLock ([] : List (ι × MeterUpdate))
        state).2 = [] from hstate] at hw
      cases hw
  | append_singleton begun x ih =>
      obtain ⟨hfront, hcalls⟩ := ih fun y hy =>
        h y (List.mem_append_left _ hy)
      have hx : Fitting x.2 := h x (by simp)
      obtain ⟨prev, hprev⟩ := exists_other x.2
      obtain ⟨ws, hasked, hws, hmem⟩ := recorded_update x.2
        (⟨prev, inOrder (recorded zb).underLock begun state⟩ :
          (recorded zb).Meter)
      rw [← @finish_underLock (recorded zb).toEspZigbee x.2 prev hprev]
        at hasked
      rw [inOrder_snoc, hasked]
      refine ⟨fun w hw => ?_, fun y hy => ?_⟩
      · rcases List.mem_append.mp hw with hw | hw
        · exact hfront w hw
        · exact reported_takes hx (hws w hw)
      · rcases List.mem_append.mp hy with hy | hy
        · exact List.mem_append_left _ (hcalls y hy)
        · rw [List.mem_singleton.mp hy]
          exact List.mem_append_right _ (hmem hprev)

/-- The attributes that are reported to the coordinator are those the update
functions write: they ask for no other, and on a stack that accepts its writes
each of them is asked for by some call. All of them are created, none twice.

And whatever is on the line and is clicked, and however the two tasks fall
together: every call that gets the lock asks for its write, every write that is
asked for is one the created attributes take, and a stack that turns away all
others goes through the same states. -/
theorem attributes_created (zb : EspZcl) (expectedLen : Int32)
    (input : List UInt8) (clicks : List Click)
    (hcount : ∀ slot, (slots clicks).count slot < 2 ^ 31) (meter : zb.Meter) :
    (reported zb).Nodup ∧ (created zb).Nodup ∧
    (∀ attr ∈ reported zb, attr ∈ created zb) ∧
    (∀ (m : zb.Meter) u, Fitting u →
      ∀ w ∈ asked zb m u, w.1 ∈ reported zb) ∧
    (∀ good, AcceptsFrom zb good → ∀ m : zb.Meter, good m.state →
      ∀ attr ∈ reported zb, ∃ u, Fitting u ∧
        ∃ value, (attr, value) ∈ asked zb m u) ∧
    (∀ s, Reaches (recorded zb).underLock ((recorded zb).updateSystem
        (deviceCalls expectedLen input clicks) (onRecorded meter)) s →
      s.holder = none →
        (∀ w ∈ s.inside.2, takes zb w.1 w.2 = true) ∧
        ∀ x ∈ s.begun, (attributeOf zb.toEspZigbee (channelOf x.2),
          contentOf x.2) ∈ s.inside.2) ∧
    ∀ s : System Caller Int16 zb.State MeterUpdate, s.holder = none →
      (Reaches (guarded zb).underLock ((guarded zb).updateSystem
          (deviceCalls expectedLen input clicks) (onGuarded meter)) s ↔
        Reaches zb.underLock (zb.updateSystem
          (deviceCalls expectedLen input clicks) meter) s) := by
  refine ⟨reported_nodup, created_nodup, fun _ => created_of_reported,
    fun m u hu w hw => (asked_reported hu hw).1,
    fun good h m hgood attr => exists_asked h hgood, fun s h hfree => ?_,
    fun s hfree => ⟨fun h => ?_, fun h => ?_⟩⟩
  · rw [device_inside h hfree]
    obtain ⟨htaken, hcalls⟩ := recorded_inOrder
      (fun x hx => device_fitting h hcount hx) (rfl : (onRecorded meter).state.2
        = [])
    exact ⟨fun w hw => (htaken w hw).2, hcalls⟩
  · exact h.of_finish rfl hfree fun x hx b => Eq.symm
      (@guarded_finish zb x.2 (device_fitting h hcount hx) b)
  · exact h.of_finish rfl hfree fun x hx b =>
      guarded_finish (device_fitting h hcount hx) b

/-- A click, up to the end of both tasks. -/
theorem attributes_created_click :
    (∃ u, Fitting u ∧ ∃ value, (scriptedZcl.instantaneousDemand, value) ∈
      asked scriptedZcl (scriptedMeter []) u) ∧
    ∃ s : System Caller Int16 scriptedZcl.State MeterUpdate,
      (∀ c, s.tasks c = .done) ∧
      Reaches (guarded scriptedZcl).underLock
        ((guarded scriptedZcl).updateSystem (deviceCalls 0 [] [.single])
          (onGuarded (scriptedMeter []))) s := by
  obtain ⟨_, _, _, _, hasked, _, hguarded⟩ := attributes_created scriptedZcl 0
    [] [.single] (by decide) (scriptedMeter [])
  obtain ⟨s, hreach, hfree, hdone⟩ := completes_all (scriptedZcl.updateSystem
    (deviceCalls 0 [] [.single]) (scriptedMeter [])) [.uartTask, .timerTask]
  refine ⟨hasked _ scripted_acceptsFrom (scriptedMeter []) rfl _
    (mem_reported.mpr (Or.inl rfl)), s, fun c => hdone c ?_,
    (hguarded s hfree).mpr hreach⟩
  cases c <;> simp

/-- There is no third tier. -/
example : takes scriptedZcl ⟨METERING_ENDPOINT_ID, 0x0702, 0x0104⟩
    (.uint64 0) = false := by decide

end MBusMeter.Proofs
