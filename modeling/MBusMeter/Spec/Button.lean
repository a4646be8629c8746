import MBusMeter.Firmware.Main
import MBusMeter.Spec.Meter

/-!
# What clicks tell the meter

Nine places of the meter can be tried out. A double click goes on to the next
of them, and with every click of either kind the place that is reached is told
how many clicks there have been for it. A place is told a count in the numbers
it has: the power in 16 bits with a sign, currents and voltages in 16 bits
without one, so that these start over, and the energies in 64.
-/

namespace MBusMeter.Spec

open Firmware Firmware.Pdu

/-- Something of each item and those before it. -/
def withPast {α β : Type} (f : List α → α → β) (xs : List α) : List β :=
  xs.mapIdx fun i x => f (xs.take i) x

/-- The values the clicks are for: a double click goes on to the next before
it counts. -/
def slots (clicks : List Click) : List (Fin 9) :=
  withPast (fun past click =>
    Fin.ofNat 9 ((past ++ [click]).count .double)) clicks

/-- The places, in the order of the double clicks. -/
def buttonPlace : Fin 9 → Channel
  | 0 => .activePower
  | 1 => .rmsCurrent 0
  | 2 => .rmsCurrent 1
  | 3 => .rmsCurrent 2
  | 4 => .rmsVoltage 0
  | 5 => .rmsVoltage 1
  | 6 => .rmsVoltage 2
  | 7 => .summationReceived
  | 8 => .summationDelivered

/-- A place is told a count, modulo as many numbers as it has. -/
def telling (count : Nat) : Channel → MeterUpdate
  | .activePower => .activePower (Int16.ofNat count)
  | .rmsCurrent phase => .rmsCurrent phase (UInt16.ofNat count)
  | .rmsVoltage phase => .rmsVoltage phase (UInt16.ofNat count)
  | .summationReceived => .summationReceived (UInt64.ofNat count)
  | .summationDelivered => .summationDelivered (UInt64.ofNat count)
  | .tierSummationReceived tier =>
      .tierSummationReceived tier (UInt64.ofNat count)
  | .tierSummationDelivered tier =>
      .tierSummationDelivered tier (UInt64.ofNat count)

/-- What is told when these values are counted up. -/
def tellings (slots : List (Fin 9)) : List MeterUpdate :=
  withPast (fun past slot => telling (past.count slot + 1) (buttonPlace slot))
    slots

end MBusMeter.Spec
