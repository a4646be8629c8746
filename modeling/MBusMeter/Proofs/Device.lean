import MBusMeter.Proofs.Bridge
import MBusMeter.Proofs.Button
import MBusMeter.Proofs.Reports
import MBusMeter.Proofs.Tasks

/-!
# The line and the button

The two tasks of the device that tell the meter something, at the same time.
Neither looks at what the other does, so the calls each makes are those it
makes when it is alone. What an attribute holds in the end is the last of the
one or of the other; the attributes the button has no value for hold what was
on the line, whatever is clicked.
-/

namespace MBusMeter.Proofs

open Lib Firmware Firmware.Pdu Spec

variable {zb : EspZigbee} {ι : Type}

/-! ## Mixed calls -/

theorem shown_notPower {channel : Channel} (h : channel ≠ .activePower)
    (us : List MeterUpdate) :
    shown channel (notPower us) = shown channel us := by
  rw [shown, shown, lastOn, lastOn, notPower, List.filter_filter]
  congr 1
  refine List.filter_congr fun u _ => ?_
  by_cases hu : channelOf u = channel
  · simp [hu, h]
  · simp [hu]

/-- The last of all is the last of somebody. -/
theorem shown_begun [DecidableEq ι] {channel : Channel} {u : MeterUpdate}
    {begun : List (ι × MeterUpdate)}
    (h : shown channel (begun.map Prod.snd) = some u) :
    ∃ i, shown channel (begunBy begun i) = some u := by
  induction begun using List.reverseRecOn with
  | nil => simp [shown, lastOn] at h
  | append_singleton begun x ih =>
      obtain ⟨i, v⟩ := x
      rw [List.map_append, List.map_singleton, shown, lastOn_snoc] at h
      split at h
      · next hv =>
          refine ⟨i, ?_⟩
          rw [begunBy_snoc, if_pos rfl, shown, lastOn_snoc, if_pos hv, h]
      · next hv =>
          obtain ⟨j, hj⟩ := ih h
          refine ⟨j, ?_⟩
          rw [begunBy_snoc]
          split
          · rw [shown, lastOn_snoc, if_neg hv]
            exact hj
          · exact hj

theorem shown_begun_none [DecidableEq ι] {channel : Channel}
    {begun : List (ι × MeterUpdate)}
    (h : shown channel (begun.map Prod.snd) = none) (i : ι) :
    shown channel (begunBy begun i) = none := by
  rw [shown, lastOn_eq_none] at h ⊢
  intro u hu
  obtain ⟨x, hx, rfl⟩ := List.mem_map.mp hu
  exact h x.2 (List.mem_map_of_mem (List.mem_of_mem_filter hx))

/-- What nothing under the lock is about stays. -/
theorem inOrder_spared {attr : Attribute} {begun : List (ι × MeterUpdate)}
    (h : Spared zb attr (begun.map Prod.snd)) (state : zb.State) :
    zb.attributeVal (inOrder zb.underLock begun state) attr =
      zb.attributeVal state attr := by
  induction begun using List.reverseRecOn with
  | nil => rfl
  | append_singleton begun x ih =>
      obtain ⟨hattr, hdemand⟩ := h x.2 (by simp)
      obtain ⟨other, hother⟩ := exists_other x.2
      rw [inOrder_snoc, finish_underLock hother,
        zigbeeMeterUpdate_frame hattr hdemand]
      exact ih fun u hu => h u (by
        rw [List.map_append]
        exact List.mem_append_left _ hu)

/-! ## The two tasks -/

/-- The calls of the tasks: for the reports on the line, and for the
clicks. -/
def deviceCalls (expectedLen : Int32) (input : List UInt8)
    (clicks : List Click) : Caller → List MeterUpdate
  | .uartTask => callsOn expectedLen input
  | .timerTask => tellings (slots clicks)

theorem channelOf_telling (count : Nat) (channel : Channel) :
    channelOf (telling count channel) = channel := by cases channel <;> rfl

/-- The button has a value for the first nine places, and none for the
tiers. -/
theorem buttonPlace_mem (slot : Fin 9) :
    buttonPlace slot ∈ channels.take 9 := by
  revert slot
  decide

theorem small_telling {count : Nat} (h : count < 2 ^ 48) (channel : Channel) :
    Small (telling count channel) := by
  have hsmall : (UInt64.ofNat count).toNat < 2 ^ 48 := by
    rw [UInt64.toNat_ofNat_of_lt' (by rw [UInt64.size]; omega)]
    exact h
  cases channel with
  | activePower | rmsCurrent _ | rmsVoltage _ => trivial
  | _ => exact hsmall

/-- A count that is told is one of clicks there have been. -/
theorem mem_tellings {slots : List (Fin 9)} {u : MeterUpdate}
    (h : u ∈ tellings slots) : ∃ slot count, count ≤ slots.count slot ∧
      u = telling count (buttonPlace slot) := by
  rw [tellings, withPast, List.mem_mapIdx] at h
  obtain ⟨i, hi, rfl⟩ := h
  refine ⟨slots[i], _, ?_, rfl⟩
  have hle := (List.take_sublist (i + 1) slots).count_le slots[i]
  rw [List.take_succ_eq_append_getElem hi, List.count_append,
    List.count_singleton_self] at hle
  exact hle

theorem deviceCalls_fitting {expectedLen : Int32} {input : List UInt8}
    {clicks : List Click}
    (hcount : ∀ slot, (slots clicks).count slot < 2 ^ 31) {c : Caller}
    {u : MeterUpdate} (h : u ∈ deviceCalls expectedLen input clicks c) :
    Fitting u := by
  cases c with
  | uartTask => exact fitting_of_callsOn h
  | timerTask =>
      obtain ⟨slot, count, hle, rfl⟩ := mem_tellings h
      have hlt := hcount slot
      refine ⟨?_, small_telling (by omega) _⟩
      rw [channelOf_telling]
      exact List.mem_of_mem_take (buttonPlace_mem slot)

section

variable {zb : EspZcl} {good : zb.State → Prop} {meter : zb.Meter}
  {expectedLen : Int32} {input : List UInt8} {clicks : List Click}
  {s : System Caller Int16 zb.State MeterUpdate}
  (h : Reaches zb.underLock
    (zb.updateSystem (deviceCalls expectedLen input clicks) meter) s)
  (hcount : ∀ slot, (slots clicks).count slot < 2 ^ 31)

include h

/-- What a task has begun is one of its calls. -/
theorem device_begun {x : Caller × MeterUpdate} (hx : x ∈ s.begun) :
    x.2 ∈ deviceCalls expectedLen input clicks x.1 := by
  have hmade : ∀ c, (begunBy s.begun c).Sublist
      (deviceCalls expectedLen input clicks c) := by
    intro c
    obtain ⟨made, rest, hcalls, _, hsub, _⟩ :=
      path_updateTask ((h.serial rfl).2 c)
    rw [hcalls]
    exact hsub.trans (List.sublist_append_left _ _)
  exact mem_of_mem_begun hmade hx

theorem device_inside (hfree : s.holder = none) :
    s.inside = inOrder zb.underLock s.begun meter.state :=
  (System.settled_of_none hfree).symm.trans (h.serial rfl).1

include hcount

theorem device_fitting {x : Caller × MeterUpdate} (hx : x ∈ s.begun) :
    Fitting x.2 := deviceCalls_fitting hcount (device_begun h hx)

theorem device_spared (hfree : s.holder = none) {channel : Channel}
    (hchannel : channel ∈ channels) (hnone :
      shown channel (s.begun.map Prod.snd) = none) :
    zb.attributeVal s.inside (attributeOf zb.toEspZigbee channel) =
      zb.attributeVal meter.state (attributeOf zb.toEspZigbee channel) := by
  rw [device_inside h hfree]
  refine inOrder_spared (fun u hu => ⟨fun heq => ?_, fun _ =>
    attributeOf_ne_demand hchannel⟩) meter.state
  obtain ⟨x, hx, rfl⟩ := List.mem_map.mp hu
  have hne := lastOn_eq_none.mp hnone x.2 hu
  exact attributeOf_ne hchannel (device_fitting h hcount hx).1
    (Ne.symm hne) heq

/-- In the end both attributes of the power hold the same one. -/
theorem device_power (haccepts : AcceptsFrom zb good)
    (hgood : good meter.state) (hinit : Initial meter)
    (hfree : s.holder = none) : ∃ p, @Shows zb.toEspZigbee (shared s) p := by
  cases hu : shown .activePower (s.begun.map Prod.snd) with
  | some u =>
      have hholds := haccepts.inOrder_holds hgood s.outside s.begun
        (fun x hx => device_fitting h hcount hx) hu
      rw [← device_inside h hfree] at hholds
      have hpower := channel_of_lastOn hu
      cases u with
      | activePower p => exact ⟨p, holds_activePower.mp hholds⟩
      | _ => cases hpower
  | none =>
      refine ⟨0, ?_, ?_⟩
      · exact (device_spared h hcount hfree List.mem_cons_self hu).trans
          hinit.shows.1
      · refine Eq.trans ?_ hinit.shows.2
        rw [shared, device_inside h hfree]
        refine inOrder_spared (fun u hmem => ⟨?_, fun hpower => ?_⟩) meter.state
        · obtain ⟨x, hx, rfl⟩ := List.mem_map.mp hmem
          exact (attributeOf_ne_demand (device_fitting h hcount hx).1).symm
        · exact absurd hpower (lastOn_eq_none.mp hu u hmem)

/-- In the end every other attribute holds the last value one of the tasks
had for it. -/
theorem device_last (haccepts : AcceptsFrom zb good)
    (hgood : good meter.state) (hfree : s.holder = none)
    (hdone : ∀ c, s.tasks c = .done) {channel : Channel}
    (hchannel : channel ∈ channels) (hpower : channel ≠ .activePower) :
    (∃ c u, shown channel (deviceCalls expectedLen input clicks c) = some u ∧
      @Holds zb.toEspZigbee (shared s) u) ∨
    ((∀ c, shown channel (deviceCalls expectedLen input clicks c) = none) ∧
      zb.attributeVal s.inside (attributeOf zb.toEspZigbee channel) =
        zb.attributeVal meter.state (attributeOf zb.toEspZigbee channel)) := by
  have hcalls : ∀ c, shown channel (begunBy s.begun c) =
      shown channel (deviceCalls expectedLen input clicks c) := by
    intro c
    obtain ⟨made, rest, heq, hat, _, hnot⟩ :=
      path_updateTask ((h.serial rfl).2 c)
    rw [hdone c] at hat
    rw [← shown_notPower hpower, hnot, shown_notPower hpower, heq, hat.done,
      List.append_nil]
  cases hu : shown channel (s.begun.map Prod.snd) with
  | some u =>
      obtain ⟨c, hc⟩ := shown_begun hu
      have hholds := haccepts.inOrder_holds hgood s.outside s.begun
        (fun x hx => device_fitting h hcount hx) hu
      rw [← device_inside h hfree] at hholds
      exact Or.inl ⟨c, u, (hcalls c).symm.trans hc, hholds⟩
  | none =>
      exact Or.inr ⟨fun c => (hcalls c).symm.trans (shown_begun_none hu c),
        device_spared h hcount hfree hchannel hu⟩

end

theorem not_shown_tellings {channel : Channel} (h : channel ∈ channels.drop 9)
    (slots : List (Fin 9)) : shown channel (tellings slots) = none := by
  refine lastOn_eq_none.mpr fun u hu heq => ?_
  obtain ⟨slot, count, _, rfl⟩ := mem_tellings hu
  have hfirst := buttonPlace_mem slot
  rw [channelOf_telling] at heq
  rw [heq] at hfirst
  exact (List.disjoint_take_drop (by decide) (Nat.le_refl 9) : _) hfirst h

/-- The device with reports coming in and the button clicked, on a stack that
accepts its writes. However the two tasks fall together, when both are done
the attributes of the power show one power; every other attribute holds the
last value one of the two had for it, or what it held when there was none; and
the attributes of the tiers hold the last on the line. -/
theorem device_attributes {zb : EspZcl} {good : zb.State → Prop}
    (haccepts : AcceptsFrom zb good) {meter : zb.Meter}
    (hinit : Initial meter) (hgood : good meter.state) {expectedLen : Int32}
    {input : List UInt8} (hsafe : ¬ Breaks expectedLen input)
    {clicks : List Click}
    (hcount : ∀ slot, (slots clicks).count slot < 2 ^ 31) :
    (∃ bridge, zb.bridgeTask input (zb.bridgeInit expectedLen meter) =
        .ok ⟨⟩ bridge ∧
      bridge.meter = (deviceCalls expectedLen input clicks .uartTask).foldl
        zb.zigbeeMeterUpdate meter) ∧
    (∃ button, handleClicks clicks buttonInit = .ok ⟨⟩ button ∧
      button.calls = deviceCalls expectedLen input clicks .timerTask) ∧
    ∀ s, Reaches zb.underLock
        (zb.updateSystem (deviceCalls expectedLen input clicks) meter) s →
      s.holder = none → (∀ c, s.tasks c = .done) →
        (∃ p, @Shows zb.toEspZigbee (shared s) p) ∧
        (∀ channel ∈ channels, channel ≠ .activePower →
          (∃ c u, shown channel (deviceCalls expectedLen input clicks c) =
              some u ∧ @Holds zb.toEspZigbee (shared s) u) ∨
          ((∀ c, shown channel (deviceCalls expectedLen input clicks c) =
              none) ∧
            zb.attributeVal s.inside (attributeOf zb.toEspZigbee channel) =
              zb.attributeVal meter.state
                (attributeOf zb.toEspZigbee channel))) ∧
        ∀ channel ∈ channels.drop 9, ∀ u,
          shown channel (callsOn expectedLen input) = some u →
            @Holds zb.toEspZigbee (shared s) u := by
  refine ⟨?_, ?_, fun s h hfree hdone =>
    ⟨device_power h hcount haccepts hgood hinit hfree,
      fun channel hchannel hpower =>
        device_last h hcount haccepts hgood hfree hdone hchannel hpower,
      fun channel hchannel u hu => ?_⟩⟩
  · rcases bridgeTask_cases zb.toEspZigbee expectedLen meter input with
      ⟨hbreaks, _⟩ | ⟨_, ho⟩
    · exact absurd hbreaks hsafe
    · exact ⟨_, ho, rfl⟩
  · rcases handleClicks_cases clicks with ⟨⟨slot, hfull⟩, _⟩ | ⟨_, ho⟩
    · exact absurd (hcount slot) (Nat.not_lt.mpr hfull)
    · exact ⟨_, ho, rfl⟩
  · have hpower : ∀ channel ∈ channels.drop 9, channel ≠ .activePower := by
      decide
    rcases device_last h hcount haccepts hgood hfree hdone
        (List.mem_of_mem_drop hchannel) (hpower channel hchannel) with
      ⟨c, v, hv, hholds⟩ | ⟨hnone, _⟩
    · cases c with
      | uartTask =>
          rw [show v = u from Option.some.inj (hv.symm.trans hu)] at hholds
          exact hholds
      | timerTask =>
          have hnever := not_shown_tellings hchannel (slots clicks)
          exact absurd (hv.symm.trans hnever) (Option.some_ne_none v)
    · exact absurd (hu.symm.trans (hnone .uartTask)) (Option.some_ne_none u)

/-- A report on the line, behind one flag. -/
def currentLine : List UInt8 := [] ++ flags (0 + 1) ++ currentSent.wire

theorem currentLine_calls :
    ¬ Breaks 0 currentLine ∧ callsOn 0 currentLine = [.rmsCurrent 0 7] := by
  obtain ⟨hready, hnone⟩ := @ready_started 0 [] List.not_mem_nil 0
  obtain ⟨hready', hcalls⟩ := hready.report currentSent
  refine ⟨hready'.safe, ?_⟩
  rw [currentLine, hcalls, hnone]
  decide

/-- With one click, and both tasks at their end. -/
theorem device_attributes_current :
    ∃ bridge, scriptedZcl.bridgeTask currentLine
        (scriptedZcl.bridgeInit 0 (scriptedMeter [])) = .ok ⟨⟩ bridge ∧
      ∃ s, Reaches scriptedZcl.underLock (scriptedZcl.updateSystem
          (deviceCalls 0 currentLine [.single]) (scriptedMeter [])) s ∧
        (∀ c, s.tasks c = .done) ∧
        (∃ p, @Shows scriptedZcl.toEspZigbee (shared s) p) ∧
        @Holds scriptedZcl.toEspZigbee (shared s) (.rmsCurrent 0 7) := by
  obtain ⟨hsafe, hcalls⟩ := currentLine_calls
  obtain ⟨⟨bridge, ho, _⟩, _, hboth⟩ := device_attributes
    scripted_acceptsFrom (scriptedMeter_initial []) rfl hsafe
    (by decide : ∀ slot, (slots [.single]).count slot < 2 ^ 31)
  obtain ⟨s, hreach, hfree, hdone⟩ := completes_all (scriptedZcl.updateSystem
    (deviceCalls 0 currentLine [.single]) (scriptedMeter []))
    [.uartTask, .timerTask]
  have hall : ∀ c, s.tasks c = .done := fun c => hdone c (by cases c <;> simp)
  obtain ⟨hpower, hlast, _⟩ := hboth s hreach hfree hall
  refine ⟨bridge, ho, s, hreach, hall, hpower, ?_⟩
  have huart : deviceCalls 0 currentLine [.single] .uartTask =
      [.rmsCurrent 0 7] := hcalls
  rcases hlast (.rmsCurrent 0) (by decide) (by decide) with
    ⟨c, u, hu, hholds⟩ | ⟨hnone, _⟩
  · cases c with
    | uartTask =>
        rw [huart] at hu
        cases hu
        exact hholds
    | timerTask => cases hu
  · have hnever := hnone .uartTask
    rw [huart] at hnever
    cases hnever

end MBusMeter.Proofs
