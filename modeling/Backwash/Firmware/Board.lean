import Backwash.Firmware.Windows

/-! The whole board: who runs what, and the state it starts in.

Key callbacks run in the button thread, timer callbacks in the timer thread, the
loops of the motor, check, display, sensor and battery threads one pass at a time, and
the alarm and water-flow handlers as interrupts. `board allowed depth` is the system of
all these calls, restricted to the ones a property is about. Priorities and
durations are not part of it: any thread may be delayed at any operation, and a
running timer may expire at any moment. -/
namespace Backwash.Firmware
open Concurrent Prog

/-! ### DeviceInit.c: the keys -/

/-- `K0_Sem_Release`, `K1_Sem_Release`, `K2_Sem_Release`. -/
def keySemRelease (k : Sem) : Code Unit := do
  openLcdDisplay
  screenTimerRefresh
  let f ← load .lcdFlag
  when (f = 0) (semRelease k)

def k2LongSemRelease : Code Unit := do
  openLcdDisplay
  screenTimerRefresh
  let f ← load .k2LongFlag
  when (f ≠ 1) do
    incr .k2LongCounter
    let n ← load .k2LongCounter
    when (n > 10) do
      store .k2LongFlag 1
      store .k2LongCounter 0
      semRelease .k2Long

def k2LongFreeRelease : Code Unit := do
  openLcdDisplay
  screenTimerRefresh
  store .k2LongFlag 0
  store .k2LongCounter 0

inductive Key where
  | k0 | k1 | k2 | k2Long | k2LongFree
  deriving DecidableEq, Repr

def keyCallback : Key → Code Unit
  | .k0 => keySemRelease .k0
  | .k1 => keySemRelease .k1
  | .k2 => keySemRelease .k2
  | .k2Long => k2LongSemRelease
  | .k2LongFree => k2LongFreeRelease

/-- `Delta_press`, run in the water-flow interrupt. -/
def deltaPress : Code Unit := store .deltaPressWorkFlag 1

def deltaPressWork : Code Unit := do
  let f ← load .deltaPressWorkFlag
  when (f ≠ 0) do
    store .deltaPressWorkFlag 0
    let e ← load .deltapressEnable
    when (e ≠ 0) do
      countUp .deltapress 10
      openLcdDisplay
      let a ← load .settingDeltapress
      if a ≠ 0 then jumptoAutomatic else jumptoReminder

/-! ### lcd_display.c: the display thread -/

def gotValue : Code Unit := do
  let n ← flashGet 1
  store (.week .reminder) n
  let n ← flashGet 2
  store (.day .reminder) n
  let n ← flashGet 3
  store (.enable .reminder) n
  let n ← flashGet 4
  store (.week .automatic) n
  let n ← flashGet 5
  store (.day .automatic) n
  let n ← flashGet 6
  store (.enable .automatic) n
  let n ← flashGet 7
  store .deltapressEnable n
  let n ← flashGet 8
  store (.counter .manual) n
  let n ← flashGet 9
  store (.counter .automatic) n
  let n ← flashGet 10
  store (.counter .deltapress) n
  let n ← flashGet 11
  store (.counter .error) n
  let n ← flashGet 12
  store .settingDeltapress n
  let n ← flashGet 13
  store .settingHardness n
  let h ← load .settingHardness
  let b ← load .settingBackwashtime
  -- the bound of the hardness is compared with the backwash time
  when (h = 0 ∨ b > 10000) do
    store .settingHardness 100
    let h ← load .settingHardness
    flashSet 13 h
  let n ← flashGet 14
  store .settingBackwashtime n
  let b ← load .settingBackwashtime
  when (b = 0 ∨ b > 120) do
    store .settingBackwashtime 30
    let b ← load .settingBackwashtime
    flashSet 14 b
  let n ← flashGet 15
  store .settingLanguage n

def lcdtoReminder : Code Unit := do
  let f ← load (.firstFlag .w25)
  let j ← load .jumpFlag
  if f = 0 ∧ j = 1 then do
    memsetFirstFlag
    guiWinAdd .w25
  else
    store (.firstFlag .w25) 0

def lcdtoBackwash : Code Unit := do
  let f ← load (.firstFlag .w3)
  (if f = 0 then do
    memsetFirstFlag
    guiWinAdd .w3
  else
    store (.firstFlag .w3) 0)
  motoCycle .lcdtoBackwash

/-- A request flag set by another thread: cleared, then served. -/
def serve (flag : Var) (work : Code Unit) : Code Unit := do
  let f ← load flag
  when (f = 1) do
    store flag 0
    work

/-- An alert window pushed over whatever is shown. -/
def pushAlert (w : Win) : Code Unit := do
  guiWinAdd w
  memsetFirstFlag
  openLcdDisplay

/-- One pass of the loop of `lcd_task_entry`. -/
def lcdTaskEntry (depth : Nat) : Code Unit := do
  guiWinDisplay depth
  deltaPressWork
  serve .jumptoReminderFlag do
    lcdtoReminder
    openLcdDisplay
    screenTimerRefresh
  serve .jumptoAutomaticFlag do
    lcdtoBackwash
    openLcdDisplay
  serve .jumpToBatteryEmptyFlag (pushAlert .w26)
  serve .jumpToBatteryNewFlag (pushAlert .w27)
  mdelay 10

/-! ### Calls -/

/-- `K2_Setjump_Sem_Release`. -/
def k2SetjumpSemRelease : Code Unit := semRelease .k2

/-- The shell commands that reach the motor. -/
inductive ShellCmd where
  | motoForward | motoBack | motoStop | motoCycle
  deriving DecidableEq, Repr

def shellCmd : ShellCmd → Code Unit
  | .motoForward => motoSend .forward
  | .motoBack => motoSend .back
  | .motoStop => motoSend .free
  | .motoCycle => motoCycle .shell

inductive Call where
  | motoEntry | expire (x : Timer) | expireSemJump | enterLowPower
  | key (k : Key) | rtcAlarm | waterFlow | rtcCheck | lcdTask | motoCycle (caller : Caller)
  | scheduleSave (k : Schedule) | dataParsing (ch : UInt8) | battery | shell (c : ShellCmd) | tick (n : Nat)
  deriving DecidableEq, Repr

def timerCallback : Timer → Code Unit
  | .motoCycle => motoCycleTimerCallback
  | .screenBacklight => lcdBacklightTimerCallback
  | .screenVcc => lcdVccTimerCallback
  | .lowPower => lowPowerTimerCallback

/-- What a call runs. The interrupts and the tick are over as they begin. -/
def body (depth : Nat) : Call → Code Unit
  | .motoEntry => motoEntry
  | .expire x => timerCallback x
  | .expireSemJump => k2SetjumpSemRelease
  | .enterLowPower => enterLowPower
  | .key k => keyCallback k
  | .rtcCheck => rtcCheckCallback
  | .lcdTask => lcdTaskEntry depth
  | .motoCycle caller => motoCycle caller
  | .scheduleSave k => scheduleSave k
  | .dataParsing ch => dataParsing ch
  | .battery => batteryWatcherCallback
  | .shell c => shellCmd c
  | .rtcAlarm | .waterFlow | .tick _ => pure ()

/-- What a call does to the state as it begins: an expiring timer stops running. -/
def enter : Call → Device → Device
  | .expire x, s => s.stopTimer x
  | .expireSemJump, s => {s with semJump := s.semJump - 1}
  | .rtcAlarm, s => atomically .irq halRtcAlarmAEventCallback s
  | .waterFlow, s => atomically .irq deltaPress s
  | .tick n, s => {s with tick := s.tick + n}
  | _, s => s

/-- The thread a call belongs to. -/
def Call.thread : Call → Thread
  | .motoEntry => .motor
  | .expire _ | .expireSemJump | .enterLowPower => .timer
  | .key _ => .button
  | .rtcAlarm | .waterFlow => .irq
  | .rtcCheck => .rtcCheck
  | .lcdTask | .motoCycle _ | .scheduleSave _ => .lcd
  | .dataParsing _ => .serial
  | .battery => .battery
  | .shell _ => .shell
  | .tick _ => .clock

/-- A timer expires only while it runs. -/
def Call.enabled : Call → Device → Bool
  | .expire x, s => s.armed x
  | .expireSemJump, s => decide (0 < s.semJump)
  | _, _ => true

/-- The board, with the calls a property is about. -/
def board (allowed : Call → Bool) (depth : Nat) : System Res Thread Call Device Input where
  exec := exec
  body := body depth
  ready := fun t c s => decide (t = c.thread) && allowed c && c.enabled s
  enter := enter

@[simp] theorem board_exec (allowed : Call → Bool) (depth : Nat) : (board allowed depth).exec = exec := rfl

/-! ### The start -/

/-- RAM as the linker leaves it, and the pins and timers as the threads' initial
parts set them up: `Moto_Init`, `SreenTimerInit`, `userAppPortInit`. -/
def powerOn (flash : Nat → Nat) : Device where
  vars := fun v => match v with
    | .jumpFlag => 1
    | _ => 0
  pins := fun p => match p with
    | .motoVcc | .ledR | .ledG | .ledB | .flashEn | .lcdEn | .lcdBl | .lcdRst => true
    | _ => false
  moto := .empty
  jump := .empty
  sem := fun _ => []
  taken := fun _ => none
  timer := fun x => match x with
    | .motoCycle => ⟨15 * 1000, none⟩
    | .screenBacklight => ⟨30 * 1000, some (30 * 1000)⟩
    | .screenVcc => ⟨60 * 1000, some (60 * 1000)⟩
    | .lowPower => ⟨1000, none⟩
  semJump := 0
  flash := flash
  wins := [.w1]
  button := fun _ => 0
  shown := fun _ => 0
  text := fun _ => none
  tick := 0

/-- The device once `RTC_Init` and `GotValue` have read the store. -/
def boot (flash : Nat → Nat) : Device :=
  atomically .lcd gotValue (atomically .lcd rtcInit (powerOn flash))

abbrev Conf := Config Res Thread Call Device Input
abbrev Act := Action Thread Call Input
abbrev Trace := List (Event Op Thread Call Input)

/-- The configuration every run starts in. -/
def start (flash : Nat → Nat) : Conf := .boot (boot flash)

/-- A thread left to itself for `n` operations, with the same readings at each. -/
def turns (t : Thread) (i : Input) (n : Nat) : List Act := List.replicate n (.step t i)

end Backwash.Firmware
