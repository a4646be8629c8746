import MBusMeter.Proofs.Accepting
import MBusMeter.Proofs.Reports

/-!
# When the stack accepts writes again

The stack may have refused any number of writes, so that the attributes hold
what they hold, and `prev` remembers a power that is nowhere. Once the stack
accepts writes again, the next value for an attribute is written and holds;
nothing has to be known about the past. The power is the exception: it is
written when one of the new powers is another than the one remembered, and as
long as they are all the same it stays what it was.
-/

namespace MBusMeter.Proofs

open Lib Firmware Firmware.Pdu Spec

theorem Ready.ends {zb : EspZigbee} {expectedLen : Int32}
    {input : List UInt8} (h : Ready expectedLen input) (meter : zb.Meter) :
    ∃ bridge, zb.bridgeTask input (zb.bridgeInit expectedLen meter) =
        .ok ⟨⟩ bridge ∧
      bridge.meter = (callsOn expectedLen input).foldl zb.zigbeeMeterUpdate
        meter := by
  rcases bridgeTask_cases zb expectedLen meter input with
    ⟨hbreaks, _⟩ | ⟨_, ho⟩
  · exact absurd hbreaks h.safe
  · exact ⟨_, ho, rfl⟩

/-- The device between two messages, whatever the stack has answered until
now. When it accepts from now on what the created attributes take, the reports
that come in make every attribute but those of the power hold the last value
there was for it; and the attributes of the power hold the last power, unless
the reports never bring another than the one remembered, and they did not hold
it before. -/
theorem reports_repair {zb : EspZcl} {good : zb.State → Prop}
    (haccepts : AcceptsFrom zb good) {expectedLen : Int32}
    {history : List UInt8} (hready : Ready expectedLen history)
    {meter : zb.Meter} {bridge : Bridge zb.toEspZigbee}
    (hhistory : zb.bridgeTask history (zb.bridgeInit expectedLen meter) =
      .ok ⟨⟩ bridge) (hgood : good bridge.meter.state)
    (reports : List SentReport) :
    ∃ bridge', zb.bridgeTask (reports.flatMap SentReport.wire) bridge =
        .ok ⟨⟩ bridge' ∧
      (∀ channel ≠ .activePower, ∀ u,
        shown channel (reports.flatMap SentReport.calls) = some u →
          Holds bridge'.meter u) ∧
      ∀ p, shown .activePower (reports.flatMap SentReport.calls) =
          some (.activePower p) →
        (Shows bridge'.meter p ↔ Shows bridge.meter p ∨
          BringsOther bridge.meter.prev
            (reports.flatMap SentReport.calls)) := by
  have hbefore : bridge.meter = (callsOn expectedLen history).foldl
      zb.zigbeeMeterUpdate meter := by
    obtain ⟨_, ho, hmeter⟩ := hready.ends meter
    rw [ho] at hhistory
    cases hhistory
    exact hmeter
  obtain ⟨bridge', hrun, _, _, hmeter⟩ := hready.run meter reports 0
  rw [List.foldl_append, ← hbefore] at hmeter
  have hsplit := Proc.each_append zb.bridgeHandleByte history
    (reports.flatMap SentReport.wire ++ flags 0)
    (zb.bridgeInit expectedLen meter)
  rw [← EspZigbee.bridgeTask, ← EspZigbee.bridgeTask, hhistory,
    Outcome.ok_andThen, hrun] at hsplit
  rw [show flags 0 = [] from rfl, List.append_nil] at hsplit
  refine ⟨bridge', hsplit.symm, fun channel hne u hu => ?_, fun p hp => ?_⟩
  · rw [hmeter]
    exact haccepts.holds_shown hgood (fun _ => fitting_of_calls) hne hu
  · rw [hmeter]
    exact haccepts.power_shown hgood (fun _ hu => (fitting_of_calls hu).1) hp

/-- A report whose one value is refused, and the report again. -/
theorem reports_repair_current :
    ∃ bridge bridge' : Bridge scriptedZcl.toEspZigbee,
      scriptedZcl.bridgeTask ([] ++ flags (0 + 1) ++ currentSent.wire)
        (scriptedZcl.bridgeInit 0 (scriptedMeter [false])) = .ok ⟨⟩ bridge ∧
      scriptedZcl.bridgeTask ([currentSent].flatMap SentReport.wire) bridge =
        .ok ⟨⟩ bridge' ∧
      ¬ Holds bridge.meter (.rmsCurrent 0 7) ∧
      Holds bridge'.meter (.rmsCurrent 0 7) := by
  obtain ⟨hstarted, hnone⟩ := @ready_started 0 [] List.not_mem_nil 0
  obtain ⟨hready, hcalls⟩ := hstarted.report currentSent
  obtain ⟨bridge, ho, hmeter⟩ := hready.ends (scriptedMeter [false])
  rw [hcalls, hnone, List.nil_append] at hmeter
  obtain ⟨bridge', hrun, hholds, _⟩ := reports_repair scripted_acceptsFrom
    hready ho (by rw [hmeter]; rfl) [currentSent]
  refine ⟨bridge, bridge', ho, hrun, fun h => ?_,
    hholds (.rmsCurrent 0) (by decide) _ (by decide)⟩
  rw [hmeter] at h
  exact absurd h.1 (by decide)

end MBusMeter.Proofs
