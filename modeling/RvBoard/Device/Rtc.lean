import RvBoard.Fdt
import RvBoard.MemFault
import RvBoard.Plic
import RvBoard.Word

/-!
# Real-time clock

Shows the host's clock in nanoseconds and has one alarm. Reading the lower half of the time
latches the upper half, so that the two reads belong to one moment.
-/

set_option autoImplicit false

namespace RvBoard

structure Rtc where
  latchedHigh : UInt32 := 0
  alarm : UInt64 := 0
  armed : Bool := false
  enabled : Bool := false
  pending : Bool := false
deriving DecidableEq, Repr

namespace Rtc

def name : String := "rtc"
def size : UInt64 := 0x1000

def model : String := "goldfish-rtc"

inductive Register where
  | timeLow
  | timeHigh
  | alarmLow
  | alarmHigh
  | irqEnabled
  | clearAlarm
  | alarmStatus
  | clearInterrupt

def Register.ofOffset? (offset : UInt64) : Option Register :=
  match offset with
  | 0x00 => some .timeLow
  | 0x04 => some .timeHigh
  | 0x08 => some .alarmLow
  | 0x0c => some .alarmHigh
  | 0x10 => some .irqEnabled
  | 0x14 => some .clearAlarm
  | 0x18 => some .alarmStatus
  | 0x1c => some .clearInterrupt
  | _ => none

def interrupt (rtc : Rtc) : Bool :=
  rtc.enabled && rtc.pending

def due (rtc : Rtc) (now : UInt64) : Bool :=
  rtc.armed && rtc.alarm ≤ now

def check (rtc : Rtc) (now : UInt64) : Rtc :=
  if rtc.due now then { rtc with armed := false, pending := true } else rtc

def read (rtc : Rtc) (now : UInt64) : Register → UInt32 × Rtc
  | .timeLow => (now.toUInt32, { rtc with latchedHigh := highHalf now })
  | .timeHigh => (rtc.latchedHigh, rtc)
  | .alarmLow => (rtc.alarm.toUInt32, rtc)
  | .alarmHigh => (highHalf rtc.alarm, rtc)
  | .irqEnabled => (rtc.enabled.toUInt32, rtc)
  | .alarmStatus => (rtc.armed.toUInt32, rtc)
  | .clearAlarm => (0, rtc)
  | .clearInterrupt => (0, rtc)

def arm (rtc : Rtc) (value : UInt32) : Rtc :=
  { rtc with alarm := replaceHalf rtc.alarm value false, armed := true }

def write (rtc : Rtc) (now : UInt64) (value : UInt32) : Register → Rtc
  | .alarmHigh => { rtc with alarm := replaceHalf rtc.alarm value true }
  | .alarmLow => (rtc.arm value).check now
  | .irqEnabled => { rtc with enabled := value &&& 1 != 0 }
  | .clearAlarm => { rtc with armed := false }
  | .clearInterrupt => { rtc with pending := false }
  | .timeLow => rtc
  | .timeHigh => rtc
  | .alarmStatus => rtc

def writeUpdates (rtc : Rtc) (now : UInt64) (value : UInt32) : Register → Bool
  | .alarmLow => (rtc.arm value).due now
  | .irqEnabled => true
  | .clearInterrupt => true
  | _ => false

def load (rtc : Rtc) (now offset : UInt64) (size : Nat) : Except MemFault UInt64 × Rtc :=
  if size = 2 then
    match Register.ofOffset? offset with
    | some register =>
      let (value, rtc) := rtc.read now register
      (.ok value.toUInt64, rtc)
    | none => (.error .loadAccess, rtc)
  else (.error .loadAccess, rtc)

def store (rtc : Rtc) (now offset : UInt64) (size : Nat) (value : UInt64) :
    Except MemFault Unit × Rtc × Bool :=
  if size = 2 then
    match Register.ofOffset? offset with
    | some register =>
      (.ok (), rtc.write now value.toUInt32 register, rtc.writeUpdates now value.toUInt32 register)
    | none => (.error .storeAccess, rtc, false)
  else (.error .storeAccess, rtc, false)

def describe (base : UInt64) (line : Line) : List Fdt.Token :=
  Fdt.node (name ++ "@" ++ String.ofList (Nat.toDigits 16 base.toNat)) ([
    .text "compatible" ("google," ++ model),
    .reg base size]
    ++ Fdt.interrupt (UInt32.ofNat line.val))

end Rtc

end RvBoard
