import Mathlib.Algebra.Group.Nat.Defs
import Backwash.Concurrent.System

/-! The controller as a state and the operations on it.

The firmware runs on RT-Thread: a handful of threads, interrupts and soft timers
share global variables, GPIO pins, two event sets, counting semaphores, timers,
the settings store and the window stack of the display. `Device` is all of that,
`Op` is what a thread can do to it in one step no other thread can split, and
`exec` is what the step does. Drawing is kept only as far as it can be asked
about: which state of a button was drawn last, which number was last formatted
into a text. -/
namespace Backwash.Firmware
open Concurrent

/-! ### Names -/

/-- Who runs code. `irq` stands for the interrupt handlers, `clock` for the tick. -/
inductive Thread where
  | timer | motor | button | rtcCheck | lcd | serial | battery | shell | irq | clock
  deriving DecidableEq, Repr

/-- The windows `userMain1Win` … `userMain27Win`. -/
inductive Win where
  | w1 | w2 | w3 | w4 | w5 | w6 | w7 | w8 | w9 | w10 | w11 | w12 | w13 | w14 | w15 | w16 | w17 | w18
  | w19 | w20 | w21 | w22 | w23 | w24 | w25 | w26 | w27
  deriving DecidableEq, Repr

/-- The two schedules, Reminder and Automatic, which have the same variables. -/
inductive Schedule where
  | reminder | automatic
  deriving DecidableEq, Repr

inductive Counter where
  | manual | automatic | deltapress | error
  deriving DecidableEq, Repr

/-- The global variables, and `data`, the buffer of `data_parsing`. -/
inductive Var where
  -- MotoControl.c, TdsWork.c, Battery.c
  | motoWorkFlag | leftStatus | rightStatus | tdsValue | dataParsingId | data (i : Nat)
  | lowVoltageFlag | nowBatVol | pastBatVol
  -- RTCWork.c
  | rtcTime (k : Schedule) | rtcEventFlag
  -- lcd_display.c: settings, counters and the edited copies
  | week (k : Schedule) | day (k : Schedule) | enable (k : Schedule)
  | weekTemp (k : Schedule) | dayTemp (k : Schedule) | enableTemp (k : Schedule)
  | counter (c : Counter)
  | deltapressEnable | settingDeltapress | settingHardness | settingBackwashtime | settingLanguage
  | deltapressEnableTemp | setDeltaTemp | setHardnessTemp | setBackwashTemp | setLanguageTemp
  | tdsPasswordTemp | tdsValueOffsetTemp
  -- lcd_display.c: the windows
  | jumpFlag | nowButtonId | nowSetting | nowWinid | firstFlag (w : Win) | win1PageID | win14PageID
  | jumptoReminderFlag | jumptoAutomaticFlag | jumpToBatteryEmptyFlag | jumpToBatteryNewFlag
  -- DeviceInit.c, LowPower.c, 12864.c
  | k2LongCounter | k2LongFlag | deltaPressWorkFlag | buttonWakeupFlag | lcdFlag
  deriving DecidableEq, Repr

/-- Width of a variable in bits: `uint8_t` and `char` unless stated otherwise. -/
def Var.width : Var → Nat
  | .tdsValue | .nowBatVol | .pastBatVol | .rtcTime _ | .settingHardness => 32
  | .counter _ | .settingBackwashtime | .setHardnessTemp | .setBackwashTemp | .tdsValueOffsetTemp => 16
  | _ => 8

inductive Pin where
  | motoMode | motoVcc | motoIn1 | motoIn2 | motoLeft | motoRight
  | ledR | ledG | ledB
  | lcdBl | lcdCs | lcdRst | lcdSda | lcdClk | lcdEn
  | flashMosi | flashMiso | flashSclk | flashCs | flashEn
  | wifiEn | wifiRst
  deriving DecidableEq, Repr

/-- The ADC channels 2, 3 and 16. -/
inductive Adc where
  | dc | bat | moto
  deriving DecidableEq, Repr

inductive Sem where
  | k0 | k1 | k2 | k2Long | rtcCheck
  deriving DecidableEq, Repr

inductive Timer where
  | motoCycle | screenBacklight | screenVcc | lowPower
  deriving DecidableEq, Repr

/-- The texts that are formatted with `sprintf`, one for each destination array. -/
inductive Text where
  | weekstring | daystring | manualString | automaticString | deltaString | errorString
  | hardnessString | backwashString | tdsPasswordString | currentTds23 | currentTds24
  deriving DecidableEq, Repr

/-! ### Event sets -/

/-- `Event_Moto_Free`, `Event_Moto_Forward`, `Event_Moto_Back`, `Event_Moto_Cycle`. -/
inductive MotoBit where
  | free | forward | back | cycle
  deriving DecidableEq, Repr

/-- The value of `Moto_Event`. -/
structure MotoBits where
  free : Bool := false
  forward : Bool := false
  back : Bool := false
  cycle : Bool := false
  deriving DecidableEq, Repr

def MotoBits.empty : MotoBits := {}

def MotoBits.send (s : MotoBits) : MotoBit → MotoBits
  | .free => {s with free := true}
  | .forward => {s with forward := true}
  | .back => {s with back := true}
  | .cycle => {s with cycle := true}

def MotoBits.has (s : MotoBits) : MotoBit → Bool
  | .free => s.free
  | .forward => s.forward
  | .back => s.back
  | .cycle => s.cycle

/-- The set with one bit. -/
def MotoBits.only (b : MotoBit) : MotoBits := MotoBits.empty.send b

/-- `JUMP_TDS`, `JUMP_STALLING`, `JUMP_FINISH`, `JUMP_NOMOTO`, `JUMP_EXIT`. -/
inductive JumpBit where
  | tds | stalling | finish | nomoto | exit
  deriving DecidableEq, Repr

/-- The value of `lcd_jump_event`. -/
structure JumpBits where
  tds : Bool := false
  stalling : Bool := false
  finish : Bool := false
  nomoto : Bool := false
  exit : Bool := false
  deriving DecidableEq, Repr

def JumpBits.empty : JumpBits := {}

def JumpBits.send (s : JumpBits) : JumpBit → JumpBits
  | .tds => {s with tds := true}
  | .stalling => {s with stalling := true}
  | .finish => {s with finish := true}
  | .nomoto => {s with nomoto := true}
  | .exit => {s with exit := true}

def JumpBits.only (b : JumpBit) : JumpBits := JumpBits.empty.send b

/-! ### The state -/

/-- A soft timer: the ticks it is set to, and the tick it expires at while it runs. -/
structure TimerState where
  initTick : Nat
  timeout : Option Nat
  deriving DecidableEq, Repr

structure Device where
  vars : Var → Nat
  pins : Pin → Bool
  moto : MotoBits
  jump : JumpBits
  /-- The tokens of a semaphore, oldest first, each with the thread that released it. -/
  sem : Sem → List Thread
  /-- Who released the token that the last take of a semaphore got. -/
  taken : Sem → Option Thread
  timer : Timer → TimerState
  /-- Running timers made by `SemJump`, which creates a new one at each call. -/
  semJump : Nat
  /-- The settings store, by the index into `Key_list`. -/
  flash : Nat → Nat
  /-- The window stack, top first. -/
  wins : List Win
  button : Nat → Nat
  shown : Nat → Nat
  text : Text → Option Nat
  tick : Nat

namespace Device

def armed (s : Device) (t : Timer) : Bool := (s.timer t).timeout.isSome

def store (s : Device) (v : Var) (n : Nat) : Device :=
  {s with vars := Function.update s.vars v (n % 2 ^ v.width)}

def setPin (s : Device) (p : Pin) (b : Bool) : Device := {s with pins := Function.update s.pins p b}

def setTimer (s : Device) (t : Timer) (x : TimerState) : Device :=
  {s with timer := Function.update s.timer t x}

def stopTimer (s : Device) (t : Timer) : Device := s.setTimer t {s.timer t with timeout := none}

end Device

/-! ### Operations -/

/-- Who calls `Moto_Cycle`. -/
inductive Caller where
  | userMain2WinFun | lcdtoBackwash | shell
  deriving DecidableEq, Repr

/-- Places a run passes that a property may ask about: a function entered, a case
of a switch taken. They change nothing. -/
inductive Mark where
  | motoCycle (caller : Caller) | motoCase (b : MotoBit) | enterLowPower | lowPowerTimerStart
  | jumptoReminder | jumptoAutomatic | flashFactory | lcdInit | winFun (w : Win)
  deriving DecidableEq, Repr

/-- What a thread can do in one step. `pinRead`, `adcRead` and `stop2` are
answered by the outside world. -/
inductive Op where
  | load (v : Var) | store (v : Var) (n : Nat)
  | pinRead (p : Pin) | pinWrite (p : Pin) (b : Bool) | adcRead (c : Adc)
  | motoSend (b : MotoBit) | motoRecv | jumpSend (b : JumpBit) | jumpRecv
  | semTake (k : Sem) | semRelease (k : Sem) | keyStatus (k : Sem)
  | timerStart (t : Timer) | timerStop (t : Timer) | timerControl (t : Timer) (n : Nat) | semJump
  | efGet (id : Nat) | efBegin (id : Nat) | efSet (id n : Nat)
  | guiWinInit | guiWinAdd (w : Win) | guiWinDeleteTop | guiTop | memsetFirstFlag
  | setButton (i n : Nat) | guiButton (i : Nat) | sprintf (x : Text) (n : Nat)
  | mdelay (n : Nat) | stop2 | cpuReset | mark (m : Mark)
  deriving DecidableEq, Repr

@[reducible] def Res : Op → Type
  | .load _ | .adcRead _ | .efGet _ => Nat
  | .pinRead _ | .semTake _ | .keyStatus _ => Bool
  | .motoRecv => MotoBits
  | .jumpRecv => JumpBits
  | .guiTop => Option Win
  | _ => Unit

/-- What the outside world answers: the level of a pin, the value of a channel. -/
structure Input where
  level : Bool := false
  value : Nat := 0
  deriving DecidableEq, Repr

/-- `GUIWINMANAGE_NUM`. -/
def guiWinManageNum : Nat := 16

/-- `memset(FirstFlag, 0, 27)`: the flags of windows 1 to 26. -/
def Device.clearFirstFlag (s : Device) : Device :=
  {s with vars := fun v => match v with
    | .firstFlag .w27 => s.vars v
    | .firstFlag _ => 0
    | _ => s.vars v}

def exec (t : Thread) : (o : Op) → Input → Device → Device × Res o
  | .load v, _, s => (s, s.vars v)
  | .store v n, _, s => (s.store v n, ())
  | .pinRead _, i, s => (s, i.level)
  | .pinWrite p b, _, s => (s.setPin p b, ())
  | .adcRead _, i, s => (s, i.value)
  | .motoSend b, _, s => ({s with moto := s.moto.send b}, ())
  | .motoRecv, _, s => ({s with moto := .empty}, s.moto)
  | .jumpSend b, _, s => ({s with jump := s.jump.send b}, ())
  | .jumpRecv, _, s => ({s with jump := .empty}, s.jump)
  | .semTake k, _, s =>
    ({s with sem := Function.update s.sem k (s.sem k).tail
             taken := Function.update s.taken k (s.sem k).head?}, !(s.sem k).isEmpty)
  | .semRelease k, _, s => ({s with sem := Function.update s.sem k (s.sem k ++ [t])}, ())
  -- `K0_Status` … `K2_Long_Status`: whether the last take of the semaphore got a token
  | .keyStatus k, _, s => (s, (s.taken k).isSome)
  | .timerStart x, _, s =>
    (s.setTimer x {s.timer x with timeout := some (s.tick + (s.timer x).initTick)}, ())
  | .timerStop x, _, s => (s.stopTimer x, ())
  | .timerControl x n, _, s => (s.setTimer x {s.timer x with initTick := n}, ())
  | .semJump, _, s => ({s with semJump := s.semJump + 1}, ())
  | .efGet id, _, s => (s, s.flash id)
  | .efBegin _, _, s => (s, ())
  | .efSet id n, _, s => ({s with flash := Function.update s.flash id (n % 2 ^ 32)}, ())
  | .guiWinInit, _, s => ({s with wins := []}, ())
  | .guiWinAdd w, _, s =>
    ({s with wins := if s.wins.length ≥ guiWinManageNum then s.wins else w :: s.wins}, ())
  | .guiWinDeleteTop, _, s => ({s with wins := if s.wins.length ≤ 1 then s.wins else s.wins.tail}, ())
  | .guiTop, _, s => (s, s.wins.head?)
  | .memsetFirstFlag, _, s => (s.clearFirstFlag, ())
  | .setButton i n, _, s => ({s with button := if i < 5 then Function.update s.button i n else s.button}, ())
  | .guiButton i, _, s => ({s with shown := Function.update s.shown i (s.button i)}, ())
  | .sprintf x n, _, s => ({s with text := Function.update s.text x (some n)}, ())
  | .mdelay _, _, s => (s, ())
  -- a key that wakes the controller runs `button_wakeup`, the hourly alarm does not
  | .stop2, i, s => (if i.level then s.store .buttonWakeupFlag 1 else s, ())
  | .cpuReset, _, s => (s, ())
  | .mark _, _, s => (s, ())

/-! ### What an operation leaves alone -/

section
variable {t : Thread} {o : Op} {s : Device}

attribute [local simp] exec

theorem exec_pins {p : Pin} (h : ∀ b, o ≠ .pinWrite p b) (i : Input) : (exec t o i s).1.pins p = s.pins p := by
  cases o with
  | pinWrite q b =>
    have hq : p ≠ q := fun e => h b (by rw [e])
    simp [Device.setPin, hq]
  | stop2 => simp only [exec]; split <;> rfl
  | _ => rfl

theorem exec_moto (hs : ∀ b, o ≠ .motoSend b) (hr : o ≠ .motoRecv) (i : Input) :
    (exec t o i s).1.moto = s.moto := by
  cases o with
  | motoSend b => exact absurd rfl (hs b)
  | motoRecv => exact absurd rfl hr
  | stop2 => simp only [exec]; split <;> rfl
  | _ => rfl

theorem exec_jump (hs : ∀ b, o ≠ .jumpSend b) (hr : o ≠ .jumpRecv) (i : Input) :
    (exec t o i s).1.jump = s.jump := by
  cases o with
  | jumpSend b => exact absurd rfl (hs b)
  | jumpRecv => exact absurd rfl hr
  | stop2 => simp only [exec]; split <;> rfl
  | _ => rfl

theorem exec_wins (hi : o ≠ .guiWinInit) (ha : ∀ w, o ≠ .guiWinAdd w) (hd : o ≠ .guiWinDeleteTop) (i : Input) :
    (exec t o i s).1.wins = s.wins := by
  cases o with
  | guiWinInit => exact absurd rfl hi
  | guiWinAdd w => exact absurd rfl (ha w)
  | guiWinDeleteTop => exact absurd rfl hd
  | stop2 => simp only [exec]; split <;> rfl
  | _ => rfl

theorem exec_timer {x : Timer} (h : o ≠ .timerStart x) (h' : o ≠ .timerStop x) (hc : ∀ n, o ≠ .timerControl x n)
    (i : Input) : (exec t o i s).1.timer x = s.timer x := by
  cases o with
  | timerStart y =>
    have hy : x ≠ y := fun e => h (by rw [e])
    simp [Device.setTimer, hy]
  | timerStop y =>
    have hy : x ≠ y := fun e => h' (by rw [e])
    simp [Device.setTimer, Device.stopTimer, hy]
  | timerControl y n =>
    have hy : x ≠ y := fun e => hc n (by rw [e])
    simp [Device.setTimer, hy]
  | stop2 => simp only [exec]; split <;> rfl
  | _ => rfl

theorem exec_armed {x : Timer} (h : o ≠ .timerStart x) (h' : o ≠ .timerStop x) (i : Input) :
    (exec t o i s).1.armed x = s.armed x := by
  by_cases hc : ∃ n, o = .timerControl x n
  · obtain ⟨n, rfl⟩ := hc
    simp [Device.armed, Device.setTimer]
  · unfold Device.armed
    rw [exec_timer h h' fun n e => hc ⟨n, e⟩]

theorem exec_flash {id : Nat} (h : ∀ n, o ≠ .efSet id n) (i : Input) : (exec t o i s).1.flash id = s.flash id := by
  cases o with
  | efSet j n =>
    have hj : id ≠ j := fun e => h n (by rw [e])
    simp [hj]
  | stop2 => simp only [exec]; split <;> rfl
  | _ => rfl

theorem exec_sem {k : Sem} (h : o ≠ .semTake k) (h' : o ≠ .semRelease k) (i : Input) :
    (exec t o i s).1.sem k = s.sem k := by
  cases o with
  | semTake j =>
    have hj : k ≠ j := fun e => h (by rw [e])
    simp [hj]
  | semRelease j =>
    have hj : k ≠ j := fun e => h' (by rw [e])
    simp [hj]
  | stop2 => simp only [exec]; split <;> rfl
  | _ => rfl

theorem exec_taken {k : Sem} (h : o ≠ .semTake k) (i : Input) : (exec t o i s).1.taken k = s.taken k := by
  cases o with
  | semTake j =>
    have hj : k ≠ j := fun e => h (by rw [e])
    simp [hj]
  | stop2 => simp only [exec]; split <;> rfl
  | _ => rfl

theorem exec_vars {v : Var} (h : ∀ n, o ≠ .store v n) (hf : ∀ w, v ≠ .firstFlag w) (hw : v ≠ .buttonWakeupFlag)
    (i : Input) : (exec t o i s).1.vars v = s.vars v := by
  cases o with
  | store u n =>
    have hu : v ≠ u := fun e => h n (by rw [e])
    simp [Device.store, hu]
  | memsetFirstFlag =>
    cases v with
    | firstFlag w => exact absurd rfl (hf w)
    | _ => rfl
  | stop2 =>
    simp only [exec]
    split
    · simp [Device.store, hw]
    · rfl
  | _ => rfl

end

/-- A function of the firmware. -/
abbrev Code := Prog Res

/-- One operation as a function. -/
abbrev act (o : Op) : Code (Res o) := Prog.perform o

/-- A function that no thread can see half done, with nothing to read from outside. -/
def atomically (t : Thread) : Code Unit → Device → Device
  | .ret _, s => s
  | .op o k, s => atomically t (k (exec t o {} s).2) (exec t o {} s).1

theorem atomically_bind (t : Thread) (p : Code Unit) (f : Unit → Code Unit) (s : Device) :
    atomically t (p >>= f) s = atomically t (f ()) (atomically t p s) := by
  induction p generalizing s with
  | ret a => rfl
  | op o k ih => exact ih _ _

/-- What no operation of a function changes, the function does not change. -/
theorem atomically_keep {β : Type} {t : Thread} {f : Device → β} {p : Code Unit}
    (h : p.All fun o => ∀ s, f (exec t o {} s).1 = f s) (s : Device) : f (atomically t p s) = f s := by
  induction p generalizing s with
  | ret a => rfl
  | op o k ih => exact (ih _ (h.2 _) _).trans (h.1 s)

end Backwash.Firmware
