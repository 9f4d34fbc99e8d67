import Backwash.Firmware.Device
import Backwash.Sensor.Double

/-! The functions the rest of the firmware is written with.

First the single operations as functions, then the small modules: the settings
store (FlashWork.c), the LEDs and screen timers (DeviceInit.c), the display
hardware (12864.c), the ADC and the sensor (AdcWork.c, TdsWork.c), and the
functions by which other threads tell the display what to do (lcd_display.c).
Log lines and pin directions are left out. -/
namespace Backwash.Firmware
open Concurrent Prog

abbrev load (v : Var) : Code Nat := act (.load v)
abbrev store (v : Var) (n : Nat) : Code Unit := act (.store v n)
abbrev pinRead (p : Pin) : Code Bool := act (.pinRead p)
abbrev pinWrite (p : Pin) (b : Bool) : Code Unit := act (.pinWrite p b)
abbrev adcRead (c : Adc) : Code Nat := act (.adcRead c)
abbrev motoSend (b : MotoBit) : Code Unit := act (.motoSend b)
abbrev motoRecv : Code MotoBits := act .motoRecv
abbrev jumpSend (b : JumpBit) : Code Unit := act (.jumpSend b)
abbrev jumpRecv : Code JumpBits := act .jumpRecv
abbrev semTake (k : Sem) : Code Bool := act (.semTake k)
abbrev semRelease (k : Sem) : Code Unit := act (.semRelease k)
abbrev keyStatus (k : Sem) : Code Bool := act (.keyStatus k)
abbrev timerStart (t : Timer) : Code Unit := act (.timerStart t)
abbrev timerStop (t : Timer) : Code Unit := act (.timerStop t)
abbrev timerControl (t : Timer) (n : Nat) : Code Unit := act (.timerControl t n)
abbrev semJump : Code Unit := act .semJump
abbrev efGet (id : Nat) : Code Nat := act (.efGet id)
abbrev efBegin (id : Nat) : Code Unit := act (.efBegin id)
abbrev efSet (id n : Nat) : Code Unit := act (.efSet id n)
abbrev guiWinInit : Code Unit := act .guiWinInit
abbrev guiWinAdd (w : Win) : Code Unit := act (.guiWinAdd w)
abbrev guiWinDeleteTop : Code Unit := act .guiWinDeleteTop
abbrev guiTop : Code (Option Win) := act .guiTop
abbrev memsetFirstFlag : Code Unit := act .memsetFirstFlag
abbrev setButton (i n : Nat) : Code Unit := act (.setButton i n)
abbrev guiButton (i : Nat) : Code Unit := act (.guiButton i)
abbrev sprintf (x : Text) (n : Nat) : Code Unit := act (.sprintf x n)
abbrev mdelay (n : Nat) : Code Unit := act (.mdelay n)
abbrev stop2 : Code Unit := act .stop2
abbrev cpuReset : Code Unit := act .cpuReset
abbrev mark (m : Mark) : Code Unit := act (.mark m)

/-! ### FlashWork.c -/

def flashGet (id : Nat) : Code Nat := do
  let n ← efGet id
  mdelay 10
  pure n

/-- The write to the chip lasts from `efBegin` to `efSet`. -/
def flashSet (id n : Nat) : Code Unit := do
  efBegin id
  efSet id n
  mdelay 10

/-- `for(uint8_t i=0;i<=17;i++) Flash_Set(i,0)`. -/
def flashFactory : Code Unit := do
  mark .flashFactory
  (List.range 18).foldr (fun i rest => do flashSet i 0; rest) (pure ())

/-! ### DeviceInit.c: LEDs and screen timers -/

def redOff : Code Unit := pinWrite .ledR true
def greenOff : Code Unit := pinWrite .ledG true

def greenLight : Code Unit := do
  redOff
  pinWrite .ledG false

def redLight : Code Unit := do
  greenOff
  pinWrite .ledR false

/-- `Led_Init`; `Led_DeInit` has the same body. -/
def ledInit : Code Unit := do
  pinWrite .ledG true
  pinWrite .ledR true
  pinWrite .ledB true

def screenTimerStop : Code Unit := do
  timerStop .screenBacklight
  timerStop .screenVcc

def screenTimerRefresh : Code Unit := do
  timerStart .screenBacklight
  timerStart .screenVcc

/-! ### 12864.c -/

/-- `LcdInit`: the supply, the reset pulse, then the commands that set up the controller. -/
def lcdInit : Code Unit := do
  pinWrite .lcdEn true
  pinWrite .lcdEn true
  pinWrite .lcdBl true
  pinWrite .lcdRst false
  pinWrite .lcdRst true
  mark .lcdInit
  pinWrite .lcdBl true

/-- `LCD_Flag`: 0 lit and operable, 1 lit and not operable, 2 dark, 3 without supply. -/
def openLcdDisplay : Code Unit := do
  let f ← load .lcdFlag
  match f with
  | 1 => store .lcdFlag 0
  | 2 => do
    store .lcdFlag 1
    pinWrite .lcdBl true
  | 3 => do
    store .lcdFlag 1
    lcdInit
  | _ => pure ()

def closeLcdVcc : Code Unit := do
  store .lcdFlag 3
  pinWrite .lcdEn false
  pinWrite .lcdCs false
  pinWrite .lcdRst false
  pinWrite .lcdSda false
  pinWrite .lcdClk false

def closeLcdBacklight : Code Unit := do
  store .lcdFlag 2
  pinWrite .lcdBl false

/-! ### AdcWork.c, TdsWork.c -/

/-- `Get_DC_Level`: 1 when the channel reads above 3000. -/
def getDcLevel : Code Nat := do
  let v ← adcRead .dc
  pure (if v > 3000 then 1 else 0)

def getMotoValue : Code Nat := adcRead .moto

/-- `Tds_Work` asks the sensor for a new value and returns the last one. -/
def tdsWork : Code Nat := do
  let data ← load .tdsValue
  store .tdsValue 0
  store .dataParsingId 0
  pure data

/-- `DATA_CMD_BEGIN`. -/
def dataCmdBegin : UInt8 := 0x55

/-- `ONE_DATA_MAXLEN`. -/
def oneDataMaxlen : Nat := 11

/-- A pass of the loop of `data_parsing` with the character it got. C leaves open whether
the index or the array is written first. -/
def dataParsing (ch : UInt8) : Code Unit := do
  let i ← load .dataParsingId
  store .dataParsingId (i + 1)
  store (.data i) ch.toNat
  let n ← load .dataParsingId
  when (n = oneDataMaxlen) do
    let begin ← load (.data 0)
    when (begin = dataCmdBegin.toNat) do
      let high ← load (.data 4)
      let low ← load (.data 5)
      store .tdsValue (high * 2 ^ 8 + low)
      let v ← load .tdsValue
      store .tdsValue (Sensor.timesTenth v)
    store .dataParsingId 0

/-! ### lcd_display.c: outcomes and requests -/

/-- `Counter_X++; Flash_Set(id, Counter_X)`, with the value read back for the store. -/
def countUp (c : Counter) (id : Nat) : Code Unit := do
  let n ← load (.counter c)
  store (.counter c) (n + 1)
  let n ← load (.counter c)
  flashSet id n

def jumpa : Code Unit := jumpSend .tds

def jumpb : Code Unit := do
  countUp .error 11
  jumpSend .stalling

def jumpc : Code Unit := jumpSend .finish

def jumpd : Code Unit := do
  countUp .error 11
  jumpSend .nomoto

def jumpe : Code Unit := jumpSend .exit

def jumptoReminder : Code Unit := do
  mark .jumptoReminder
  store .jumptoReminderFlag 1

def jumptoAutomatic : Code Unit := do
  mark .jumptoAutomatic
  countUp .automatic 9
  store .jumptoAutomaticFlag 1

def jumpToBatteryEmpty : Code Unit := store .jumpToBatteryEmptyFlag 1
def jumpToBatteryNew : Code Unit := store .jumpToBatteryNewFlag 1

def jumptoMainWin : Code Unit := do
  memsetFirstFlag
  guiWinInit
  guiWinAdd .w1

end Backwash.Firmware
