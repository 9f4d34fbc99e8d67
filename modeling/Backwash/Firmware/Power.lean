import Backwash.Firmware.MotoControl

/-! Sleep, the hourly alarm and the battery: LowPower.c, RTCWork.c, Battery.c.

The controller goes to stop mode from the timer thread, either a second after an
hourly check that found nothing to do or when the screen has been left alone for
a minute. -/
namespace Backwash.Firmware
open Concurrent Prog

/-! ### LowPower.c -/

def flashInit : Code Unit := pinWrite .flashEn true

def flashDeInit : Code Unit := do
  pinWrite .flashEn false
  pinWrite .flashMosi false
  pinWrite .flashMiso false
  pinWrite .flashSclk false
  pinWrite .flashCs false

def wifiDeInit : Code Unit := do
  pinWrite .wifiEn false
  pinWrite .wifiRst false

def beforSleep : Code Unit := do
  ledInit
  motoPinDeInit
  flashDeInit
  wifiDeInit
  closeLcdVcc

def afterWake : Code Unit := do
  ledInit
  motoPinInit
  flashInit

def enterLowPower : Code Unit := do
  mark .enterLowPower
  beforSleep
  store .buttonWakeupFlag 0
  stop2
  let woken ← load .buttonWakeupFlag
  afterWake
  when (woken ≠ 0) jumptoMainWin

def lowPowerTimerCallback : Code Unit := enterLowPower

def lowPowerTimerStart : Code Unit := do
  mark .lowPowerTimerStart
  timerStart .lowPower

/-! ### DeviceInit.c: the screen timers' callbacks -/

def lcdVccTimerCallback : Code Unit := do
  store .lcdFlag 3
  enterLowPower

def lcdBacklightTimerCallback : Code Unit := do
  store .lcdFlag 2
  closeLcdBacklight

/-! ### RTCWork.c -/

/-- The hours between two actions of a schedule. -/
def period (week day : Nat) : Nat := week * 7 * 24 + day * 24

/-- The entry of the store that holds a schedule's elapsed hours. -/
def Schedule.timeId : Schedule → Nat
  | .reminder => 16
  | .automatic => 17

def Schedule.jump : Schedule → Code Unit
  | .reminder => jumptoReminder
  | .automatic => jumptoAutomatic

/-- `if(X_Enable) RTC_X_Time++`. -/
def rtcCountUp (k : Schedule) : Code Unit := do
  let e ← load (.enable k)
  when (e ≠ 0) do
    let n ← load (.rtcTime k)
    store (.rtcTime k) (n + 1)

def rtcTimerEntry : Code Unit := do
  rtcCountUp .reminder
  rtcCountUp .automatic

/-- `HAL_RTC_AlarmAEventCallback`, run in the alarm interrupt. -/
def halRtcAlarmAEventCallback : Code Unit := do
  rtcTimerEntry
  semRelease .rtcCheck

/-- One schedule in a pass of `RTC_Check_Callback`: due, or its hours stored. -/
def rtcCheckSchedule (k : Schedule) : Code Unit := do
  let e ← load (.enable k)
  when (e ≠ 0) do
    let n ← load (.rtcTime k)
    let w ← load (.week k)
    let d ← load (.day k)
    if n ≥ period w d then do
      store (.rtcTime k) 0
      store .rtcEventFlag 1
      flashSet k.timeId 0
      k.jump
    else do
      let n ← load (.rtcTime k)
      flashSet k.timeId n

/-- One pass of the loop of `RTC_Check_Callback`. -/
def rtcCheckCallback : Code Unit := do
  let due ← semTake .rtcCheck
  when (due = true) do
    store .rtcEventFlag 0
    rtcCheckSchedule .reminder
    rtcCheckSchedule .automatic
    let f ← load .rtcEventFlag
    when (f = 0) lowPowerTimerStart
  mdelay 100

/-- `RTC_Init` loads the elapsed hours. -/
def rtcInit : Code Unit := do
  let r ← flashGet 16
  store (.rtcTime .reminder) r
  let a ← flashGet 17
  store (.rtcTime .automatic) a

/-! ### Battery.c -/

/-- One pass of the loop of `BatteryWatcherCallback`. -/
def batteryWatcherCallback : Code Unit := do
  let now ← load .nowBatVol
  store .pastBatVol now
  let v ← adcRead .bat
  store .nowBatVol v
  let low ← load .lowVoltageFlag
  let now ← load .nowBatVol
  let past ← load .pastBatVol
  (if low ≠ 0 then
    when (now > past ∧ now > 200 + past) do
      store .lowVoltageFlag 0
      when (¬ now > 3200) jumpToBatteryNew
  else if now < 2650 ∧ now > 1000 then do
    store .lowVoltageFlag 1
    jumpToBatteryEmpty
  else
    store .lowVoltageFlag 0)
  mdelay 5000

end Backwash.Firmware
