import MBusMeter.Firmware.Pdu
import Mathlib.Algebra.GroupWithZero.Nat
import Mathlib.Logic.Function.Basic

/-!
# The button (`main.c`)

There is a button for trying the device out without a meter. A double click
goes on to the next of nine values, a click counts the value up and tells the
meter. A long press has nothing to do with the values and is left out.
-/

namespace MBusMeter.Firmware

open Lib Pdu

/-- To count beyond what an `int` holds is undefined. -/
inductive ClickFault where
  | overflow
  deriving DecidableEq, Repr

inductive Click where
  | single
  | double
  deriving DecidableEq, Repr

/-- There are nine values. -/
instance nineValues : NeZero 9 := ⟨by decide⟩

/-- `curValue` and the `values` of `single_click`, and the calls made. -/
structure Button where
  curValue : Fin 9
  values : Fin 9 → Int32
  calls : List MeterUpdate

def buttonInit : Button where
  curValue := 0
  values := fun _ => 0
  calls := []

/-- The function that is called for a value. -/
def clickCall (curValue : Fin 9) (newValue : Int32) : MeterUpdate :=
  if curValue = 0 then .activePower newValue.toInt16
  else if 1 ≤ curValue ∧ curValue ≤ 3 then
    .rmsCurrent (curValue.val - 1) newValue.toUInt32.toUInt16
  else if 4 ≤ curValue ∧ curValue ≤ 6 then
    .rmsVoltage (curValue.val - 4) newValue.toUInt32.toUInt16
  else if curValue = 7 then .summationReceived newValue.toInt64.toUInt64
  -- There is no other left than 8.
  else .summationDelivered newValue.toInt64.toUInt64

def singleClick : Proc ClickFault Button PUnit :=
  ⟨fun button =>
    let value := button.values button.curValue
    if value = Int32.maxValue then .fault .overflow button
    else
      .ok ⟨⟩ { button with
        values := Function.update button.values button.curValue (value + 1)
        calls := button.calls ++ [clickCall button.curValue (value + 1)] }⟩

def doubleClick : Proc ClickFault Button PUnit :=
  ⟨fun button =>
    singleClick { button with curValue := button.curValue + 1 }⟩

def Click.handle : Click → Proc ClickFault Button PUnit
  | .single => singleClick
  | .double => doubleClick

/-- The clicks that have come in. -/
def handleClicks (clicks : List Click) : Proc ClickFault Button PUnit :=
  Proc.each Click.handle clicks

end MBusMeter.Firmware
