import Backwash.Firmware.Drivers

/-! MotoControl.c: the motor thread, the cycle timer and the request that starts
a backwash.

The valve is driven through `MOTO_IN1` (back) and `MOTO_IN2` (forward); a closed
limit switch reads low. `MotoWorkFlag` is 1 in forward travel, 2 in return travel
and 0 at rest, which includes the dwell at the right limit. -/
namespace Backwash.Firmware
open Concurrent Prog

def rtcClear : Code Unit := do
  store (.rtcTime .reminder) 0
  store (.rtcTime .automatic) 0

/-- `Moto_Cycle_Timer_Callback`: a closed right switch reads low. -/
def motoCycleTimerCallback : Code Unit := do
  let right ← pinRead .motoRight
  if right = false then
    motoSend .back
  else do
    motoSend .free
    screenTimerRefresh
    jumpd

def motoPinInit : Code Unit := do
  pinWrite .motoMode false
  pinWrite .motoIn1 false
  pinWrite .motoIn2 false
  pinWrite .motoVcc true

def motoPinDeInit : Code Unit := do
  pinWrite .motoMode false
  pinWrite .motoIn1 false
  pinWrite .motoIn2 false
  pinWrite .motoVcc false

/-- The branch of `Moto_Cycle` that starts a backwash. -/
def motoCycleAccept : Code Unit := do
  screenTimerStop
  motoSend .forward
  let t ← load .settingBackwashtime
  timerControl .motoCycle (t * 1000)
  timerStart .motoCycle
  greenLight

/-- `LowVoltageFlag==0 || Get_DC_Level()==1`. -/
def motoCycleSupplied : Code Bool := do
  let low ← load .lowVoltageFlag
  if low = 0 then
    pure true
  else do
    let dc ← getDcLevel
    pure (dc == 1)

def motoCycle (caller : Caller) : Code Unit := do
  mark (.motoCycle caller)
  rtcClear
  let supplied ← motoCycleSupplied
  if supplied = true then do
    let working ← load .motoWorkFlag
    when (working = 0) motoCycleAccept
  else do
    jumpe
    jumpToBatteryEmpty

/-- `Moto_Free_Event_Release`, the right limit: `Right_Status==0&&MotoWorkFlag==1`. -/
def rightLimit : Code Unit := do
  motoSend .free
  pinWrite .motoIn1 false
  pinWrite .motoIn2 false
  store .motoWorkFlag 0
  let _ ← tdsWork
  mdelay 200
  let _ ← tdsWork

/-- `Moto_Free_Event_Release`, the left limit: `Left_Status==0&&MotoWorkFlag==2`. -/
def leftLimit : Code Unit := do
  pinWrite .motoIn1 false
  pinWrite .motoIn2 false
  store .motoWorkFlag 0
  screenTimerRefresh
  let tds ← load .tdsValue
  let hardness ← load .settingHardness
  if tds > hardness then jumpa else jumpc

def motoFreeEventRelease : Code Unit := do
  let left ← pinRead .motoLeft
  store .leftStatus left.toNat
  let right ← pinRead .motoRight
  store .rightStatus right.toNat
  let r ← load .rightStatus
  let f ← load .motoWorkFlag
  when (r = 0 ∧ f = 1) rightLimit
  let l ← load .leftStatus
  let f ← load .motoWorkFlag
  when (l = 0 ∧ f = 2) leftLimit

/-- The overload branch of `Moto_Entry`. -/
def motoOverload : Code Unit := do
  pinWrite .motoIn1 false
  pinWrite .motoIn2 false
  store .motoWorkFlag 0
  jumpb
  timerStop .motoCycle
  motoSend .free
  screenTimerRefresh

def motoCaseFree : Code Unit := do
  mark (.motoCase .free)
  pinWrite .motoIn1 false
  pinWrite .motoIn2 false
  store .motoWorkFlag 0

def motoCaseForward : Code Unit := do
  mark (.motoCase .forward)
  let right ← pinRead .motoRight
  if right = true then do
    pinWrite .motoIn1 false
    pinWrite .motoIn2 true
    store .motoWorkFlag 1
  else
    store .motoWorkFlag 1

def motoCaseBack : Code Unit := do
  mark (.motoCase .back)
  let left ← pinRead .motoLeft
  when (left = true) do
    pinWrite .motoIn1 true
    pinWrite .motoIn2 false
    store .motoWorkFlag 2

/-- `switch(e)`: the cases compare the whole received set. -/
def motoSwitch (e : MotoBits) : Code Unit :=
  if e = .only .free then motoCaseFree
  else if e = .only .forward then motoCaseForward
  else if e = .only .back then motoCaseBack
  else pure ()

/-- `if(MotoWorkFlag>0)` at the head of the loop. -/
def motoPoll : Code Unit := do
  let working ← load .motoWorkFlag
  when (working > 0) do
    motoFreeEventRelease
    let voltage ← getMotoValue
    when (voltage > 200) motoOverload

/-- One pass of the loop of `Moto_Entry`. -/
def motoEntry : Code Unit := do
  motoPoll
  let e ← motoRecv
  when (e ≠ .empty) (motoSwitch e)
  mdelay 50

end Backwash.Firmware
