import Backwash.Firmware.Board

/-! Which thread can do what.

`may t o` is a table of the operations thread `t` can ever perform, coarse enough
to be read at a glance and fine enough that most invariants need no more than it:
only the motor thread raises a bridge input, only the display thread starts the
cycle timer, and so on. `body_may` says that the firmware keeps to the table. -/
namespace Backwash.Firmware
open Concurrent Prog

/-- The display thread: its own variables, the display, the LEDs and the settings;
of the motor only the request, of the elapsed hours only their reset. -/
def lcdMay : Op → Bool
  | .store v n => match v with
    | .rtcTime _ => n == 0
    | .motoWorkFlag | .leftStatus | .rightStatus | .lowVoltageFlag | .nowBatVol | .pastBatVol
    | .rtcEventFlag | .k2LongCounter | .k2LongFlag | .buttonWakeupFlag | .data _ => false
    | _ => true
  | .pinWrite p _ => match p with
    | .ledR | .ledG | .lcdBl | .lcdEn | .lcdRst => true
    | _ => false
  | .motoSend b => b == .forward
  | .jumpSend b => b == .exit
  | .semTake k => k != .rtcCheck
  | .timerStart x => x != .lowPower
  | .timerStop x => x != .motoCycle && x != .lowPower
  | .timerControl x _ => x == .motoCycle
  | .adcRead c => c == .dc
  | .efSet id n => (id != 16 && id != 17) || n == 0
  | .mark m => match m with
    | .enterLowPower | .lowPowerTimerStart | .motoCase _ => false
    | _ => true
  | .pinRead _ | .motoRecv | .semRelease _ | .stop2 => false
  | _ => true

/-- The timer thread: the outcome of a cycle that found no motor, the dismissal of
the finish screen, and sleep, which only ever lowers the motor's pins. -/
def timerMay : Op → Bool
  | .store v _ => match v with
    | .lcdFlag | .buttonWakeupFlag | .counter _ => true
    | _ => false
  | .pinRead p => p == .motoRight
  | .pinWrite p b => match p with
    | .motoIn1 | .motoIn2 => !b
    | .motoLeft | .motoRight => false
    | _ => true
  | .motoSend b => b == .back || b == .free
  | .jumpSend b => b == .nomoto
  | .semRelease k => k == .k2
  | .timerStart x => x == .screenBacklight || x == .screenVcc
  | .efBegin _ | .stop2 | .memsetFirstFlag | .guiWinInit => true
  | .efSet id _ => id == 11
  | .guiWinAdd w => w == .w1
  | .mark m => m == .enterLowPower
  | _ => false

def buttonMay : Op → Bool
  | .store v _ => match v with
    | .lcdFlag | .k2LongCounter | .k2LongFlag => true
    | _ => false
  | .pinWrite p _ => match p with
    | .lcdBl | .lcdEn | .lcdRst => true
    | _ => false
  | .semRelease k => k != .rtcCheck
  | .timerStart x => x == .screenBacklight || x == .screenVcc
  | .mark m => m == .lcdInit
  | _ => false

def rtcCheckMay : Op → Bool
  | .store v n => match v with
    | .rtcTime _ => n == 0
    | .jumptoReminderFlag | .jumptoAutomaticFlag => n == 1
    | .rtcEventFlag | .counter _ => true
    | _ => false
  | .semTake k => k == .rtcCheck
  | .timerStart x => x == .lowPower
  | .efBegin _ => true
  | .efSet id _ => id == 9 || id == 16 || id == 17
  | .mark m => match m with
    | .lowPowerTimerStart | .jumptoReminder | .jumptoAutomatic => true
    | _ => false
  | _ => false

/-- The sensor's parser: its buffer, its index and the reading. -/
def serialMay : Op → Bool
  | .store v _ => match v with
    | .tdsValue | .dataParsingId | .data _ => true
    | _ => false
  | _ => false

def batteryMay : Op → Bool
  | .store v _ => match v with
    | .lowVoltageFlag | .nowBatVol | .pastBatVol | .jumpToBatteryEmptyFlag | .jumpToBatteryNewFlag => true
    | _ => false
  | .adcRead c => c == .bat
  | _ => false

/-- A request from the shell is the display's, and the bits may be posted bare. -/
def shellMay : Op → Bool
  | .store v n => match v with
    | .rtcTime _ => n == 0
    | .jumpToBatteryEmptyFlag => true
    | _ => false
  | .pinWrite p _ => p == .ledR || p == .ledG
  | .motoSend b => b != .cycle
  | .jumpSend b => b == .exit
  | .timerStart x => x == .motoCycle
  | .timerStop x => x == .screenBacklight || x == .screenVcc
  | .timerControl x _ => x == .motoCycle
  | .adcRead c => c == .dc
  | .mark m => m == .motoCycle .shell
  | _ => false

def motorMay : Op → Bool
  | .store v _ => match v with
    | .motoWorkFlag | .leftStatus | .rightStatus | .tdsValue | .dataParsingId | .counter _ => true
    | _ => false
  | .pinRead p => p == .motoLeft || p == .motoRight
  | .pinWrite p _ => p == .motoIn1 || p == .motoIn2
  | .adcRead c => c == .moto
  | .motoSend b => b == .free
  | .motoRecv => true
  | .jumpSend b => b == .tds || b == .finish || b == .stalling
  | .timerStart x => x == .screenBacklight || x == .screenVcc
  | .timerStop x => x == .motoCycle
  | .efBegin _ => true
  | .efSet id _ => id == 11
  | .mark m => match m with
    | .motoCase _ => true
    | _ => false
  | _ => false

/-- The interrupts: elapsed hours and their check, the water-flow flag. -/
def irqMay : Op → Bool
  | .store v _ => match v with
    | .rtcTime _ | .deltaPressWorkFlag => true
    | _ => false
  | .semRelease k => k == .rtcCheck
  | _ => false

def may : Thread → Op → Bool
  | _, .load _ | _, .mdelay _ => true
  | .lcd, o => lcdMay o
  | .timer, o => timerMay o
  | .button, o => buttonMay o
  | .rtcCheck, o => rtcCheckMay o
  | .serial, o => serialMay o
  | .battery, o => batteryMay o
  | .shell, o => shellMay o
  | .motor, o => motorMay o
  | .irq, o => irqMay o
  | .clock, _ => false

/-- The program keeps to what thread `t` may do. -/
abbrev Keeps (t : Thread) {α : Type} (p : Code α) : Prop := p.All fun o => may t o = true

/-! ### The helpers

What the firmware's small functions do, for any table of operations. -/

section
variable {P : Op → Prop}

theorem all_flashSet {id n : Nat} (hbegin : P (.efBegin id)) (hset : P (.efSet id n)) (hdelay : P (.mdelay 10)) :
    (flashSet id n).All P :=
  All.bind (All.perform hbegin) fun _ => All.bind (All.perform hset) fun _ => All.perform hdelay

theorem all_countUp {e : Counter} {id : Nat} (hload : P (.load (.counter e))) (hstore : ∀ n, P (.store (.counter e) n))
    (hflash : ∀ n, (flashSet id n).All P) : (countUp e id).All P :=
  All.bind (All.perform hload) fun _ => All.bind (All.perform (hstore _)) fun _ => All.bind (All.perform hload) hflash

theorem all_tdsWork (hload : P (.load .tdsValue)) (hvalue : P (.store .tdsValue 0)) (hid : P (.store .dataParsingId 0)) :
    tdsWork.All P :=
  All.bind (All.perform hload) fun _ => All.bind (All.perform hvalue) fun _ => All.bind (All.perform hid) fun _ =>
    All.pure _

theorem all_screenTimerRefresh (hbacklight : P (.timerStart .screenBacklight)) (hvcc : P (.timerStart .screenVcc)) :
    screenTimerRefresh.All P :=
  All.bind (All.perform hbacklight) fun _ => All.perform hvcc

theorem all_light (hled : ∀ p b, p = .ledR ∨ p = .ledG → P (.pinWrite p b)) : redLight.All P ∧ greenLight.All P :=
  ⟨All.bind (All.perform (hled .ledG true (.inr rfl))) fun _ => All.perform (hled .ledR false (.inl rfl)),
    All.bind (All.perform (hled .ledR true (.inl rfl))) fun _ => All.perform (hled .ledG false (.inr rfl))⟩

theorem all_incr {v : Var} (hload : P (.load v)) (hstore : ∀ n, P (.store v n)) : (incr v).All P :=
  All.bind (All.perform hload) fun _ => All.perform (hstore _)

theorem all_decr {v : Var} (hload : P (.load v)) (hstore : ∀ n, P (.store v n)) : (decr v).All P :=
  All.bind (All.perform hload) fun _ => All.perform (hstore _)

theorem all_drawButton {i n : Nat} (hset : P (.setButton i n)) (hdraw : P (.guiButton i)) : (drawButton i n).All P :=
  All.bind (All.perform hset) fun _ => All.perform hdraw

section
variable (hload : P (.load .nowButtonId)) (hstore : ∀ n, P (.store .nowButtonId n))
  (hdraw : ∀ b n, (drawButton b n).All P)
include hload hstore hdraw

/-- The entry below in a menu, or its first one. -/
theorem all_nextButton (top first : Nat) : (do
    drawNowButton 0
    incr .nowButtonId
    let b ← load .nowButtonId
    when (b = top) (store .nowButtonId first)
    drawNowButton 1 : Code Unit).All P :=
  All.bind (All.bind (All.perform hload) fun b => hdraw b 0) fun _ => All.bind (all_incr hload hstore) fun _ =>
    All.bind (All.perform hload) fun _ => All.bind (All.when (All.perform (hstore _))) fun _ =>
      All.bind (All.perform hload) fun b => hdraw b 1

/-- The entry above, or the last one. -/
theorem all_previousButton (last : Nat) : (do
    drawNowButton 0
    let b ← load .nowButtonId
    (if b > 0 then decr .nowButtonId else store .nowButtonId last)
    drawNowButton 1 : Code Unit).All P :=
  All.bind (All.bind (All.perform hload) fun b => hdraw b 0) fun _ => All.bind (All.perform hload) fun _ =>
    All.bind (All.ite (all_decr hload hstore) (All.perform (hstore _))) fun _ =>
      All.bind (All.perform hload) fun b => hdraw b 1

end

theorem all_setSwitch {v : Var} (hload : P (.load v)) (h0 : ∀ n, P (.setButton 0 n)) (h1 : ∀ n, P (.setButton 1 n)) :
    (setSwitch v).All P :=
  All.bind (All.perform hload) fun _ => All.bind (All.perform (h0 _)) fun _ => All.bind (All.perform hload) fun _ =>
    All.perform (h1 _)

end

/-! ### The timer thread's programs

For any property that passes from the parts of a program to the whole. -/

/-- The lines that they write, and the levels that they write there. -/
def sleepLine (p : Pin) (b : Bool) : Bool :=
  match p with
  | .motoIn1 | .motoIn2 | .lcdEn => !b
  | .motoLeft | .motoRight | .lcdBl => false
  | _ => true

section
variable {P : ∀ {α : Type}, Code α → Prop} (hP : Compositional P)
include hP

/-- On the way to stop mode all lines go low and the screen is marked off. -/
theorem built_beforSleep (hpin : ∀ p b, sleepLine p b = true → P (pinWrite p b)) (hoff : P (store .lcdFlag 3)) :
    P beforSleep := by
  have hled : P ledInit := hP.bind (hpin _ _ rfl) fun _ => hP.bind (hpin _ _ rfl) fun _ => hpin _ _ rfl
  have hmoto : P motoPinDeInit :=
    hP.bind (hpin _ _ rfl) fun _ => hP.bind (hpin _ _ rfl) fun _ => hP.bind (hpin _ _ rfl) fun _ => hpin _ _ rfl
  have hflash : P flashDeInit := hP.bind (hpin _ _ rfl) fun _ => hP.bind (hpin _ _ rfl) fun _ =>
    hP.bind (hpin _ _ rfl) fun _ => hP.bind (hpin _ _ rfl) fun _ => hpin _ _ rfl
  have hwifi : P wifiDeInit := hP.bind (hpin _ _ rfl) fun _ => hpin _ _ rfl
  have hlcd : P closeLcdVcc := hP.bind hoff fun _ => hP.bind (hpin _ _ rfl) fun _ => hP.bind (hpin _ _ rfl) fun _ =>
    hP.bind (hpin _ _ rfl) fun _ => hP.bind (hpin _ _ rfl) fun _ => hpin _ _ rfl
  exact hP.bind hled fun _ => hP.bind hmoto fun _ => hP.bind hflash fun _ => hP.bind hwifi fun _ => hlcd

theorem built_afterWake (hpin : ∀ p b, sleepLine p b = true → p ≠ .lcdEn → P (pinWrite p b)) : P afterWake := by
  have hled : P ledInit := hP.bind (hpin _ _ rfl (by decide)) fun _ =>
    hP.bind (hpin _ _ rfl (by decide)) fun _ => hpin _ _ rfl (by decide)
  have hmoto : P motoPinInit := hP.bind (hpin _ _ rfl (by decide)) fun _ =>
    hP.bind (hpin _ _ rfl (by decide)) fun _ => hP.bind (hpin _ _ rfl (by decide)) fun _ =>
      hpin _ _ rfl (by decide)
  exact hP.bind hled fun _ => hP.bind hmoto fun _ => hpin _ _ rfl (by decide)

theorem built_jumptoMainWin (hflags : P memsetFirstFlag) (hinit : P guiWinInit) (hadd : P (guiWinAdd .w1)) :
    P jumptoMainWin :=
  hP.bind hflags fun _ => hP.bind hinit fun _ => hadd

theorem built_enterLowPower (hpin : ∀ p b, sleepLine p b = true → P (pinWrite p b))
    (hstore : ∀ v n, v = .lcdFlag ∨ v = .buttonWakeupFlag → P (store v n)) (hload : P (load .buttonWakeupFlag))
    (hmark : P (mark .enterLowPower)) (hstop : P stop2) (hjump : P jumptoMainWin) : P enterLowPower :=
  hP.bind hmark fun _ => hP.bind (built_beforSleep hP hpin (hstore _ _ (.inl rfl))) fun _ =>
    hP.bind (hstore _ _ (.inr rfl)) fun _ => hP.bind hstop fun _ => hP.bind hload fun _ =>
      hP.bind (built_afterWake hP fun p b hp _ => hpin p b hp) fun _ => hP.when hjump

/-- The dwell is over: the way back, or no motor. -/
theorem built_motoCycleTimerCallback (hright : P (pinRead .motoRight)) (hback : P (motoSend .back))
    (hfree : P (motoSend .free)) (hrefresh : P screenTimerRefresh) (hcount : P (countUp .error 11))
    (hpost : P (jumpSend .nomoto)) : P motoCycleTimerCallback := by
  refine hP.bind hright fun (right : Bool) => ?_
  split
  · exact hback
  · exact hP.bind hfree fun _ => hP.bind hrefresh fun _ => hP.bind hcount fun _ => hpost

theorem built_timerCallback (hpin : P (pinWrite .lcdBl false)) (hoff : ∀ n, P (store .lcdFlag n))
    (hmoto : P motoCycleTimerCallback) (hsleep : P enterLowPower) (x : Timer) : P (timerCallback x) := by
  cases x with
  | motoCycle => exact hmoto
  | screenBacklight => exact hP.bind (hoff 2) fun _ => hP.bind (hoff 2) fun _ => hpin
  | screenVcc => exact hP.bind (hoff 3) fun _ => hsleep
  | lowPower => exact hsleep

end

section
variable {R : Op → Prop}

theorem all_jumptoMainWin (hflags : R .memsetFirstFlag) (hinit : R .guiWinInit) (hadd : R (.guiWinAdd .w1)) :
    jumptoMainWin.All R :=
  built_jumptoMainWin (All.compositional R) (All.perform hflags) (All.perform hinit) (All.perform hadd)


theorem all_motoCycleTimerCallback (hright : R (.pinRead .motoRight)) (hback : R (.motoSend .back))
    (hfree : R (.motoSend .free)) (htimer : ∀ x, x = .screenBacklight ∨ x = .screenVcc → R (.timerStart x))
    (hcount : (countUp .error 11).All R) (hpost : R (.jumpSend .nomoto)) : motoCycleTimerCallback.All R :=
  built_motoCycleTimerCallback (All.compositional R) (All.perform hright) (All.perform hback) (All.perform hfree)
    (all_screenTimerRefresh (htimer _ (.inl rfl)) (htimer _ (.inr rfl))) hcount (All.perform hpost)

end

/-! ### The firmware keeps to the table

The functions are trees over the table's operations: a program is walked through
its sequences, conditions and cases down to single operations. -/

theorem keeps_shellCmd (c : ShellCmd) : Keeps .shell (shellCmd c) := by
  cases c
  all_goals
    simp only [shellCmd, motoCycle, rtcClear, motoCycleSupplied, motoCycleAccept, getDcLevel, screenTimerStop,
      greenLight, redOff, jumpe, jumpToBatteryEmpty]
    repeat' first
      | intro _ | with_reducible apply All.bind | with_reducible apply All.when | with_reducible apply All.ite
      | with_reducible exact All.pure _ | exact All.perform rfl

theorem keeps_motoEntry : Keeps .motor motoEntry := by
  simp only [motoEntry, motoPoll, motoFreeEventRelease, rightLimit, leftLimit, tdsWork, screenTimerRefresh, jumpa,
    jumpc, getMotoValue, motoOverload, jumpb, countUp, flashSet, motoSwitch, motoCaseFree, motoCaseForward,
    motoCaseBack]
  repeat' first
    | intro _ | with_reducible apply All.bind | with_reducible apply All.when | with_reducible apply All.ite
    | with_reducible exact All.pure _ | exact All.perform rfl

theorem keeps_enterLowPower : Keeps .timer enterLowPower := by
  refine built_enterLowPower (All.compositional _) (fun p b hp => All.perform ?_) (fun v n hv => All.perform ?_)
    (All.perform rfl) (All.perform rfl) (All.perform rfl) ?_
  · cases p <;> first | rfl | exact hp
  · rcases hv with rfl | rfl <;> rfl
  · exact all_jumptoMainWin rfl rfl rfl

theorem keeps_motoCycleTimerCallback : Keeps .timer motoCycleTimerCallback :=
  all_motoCycleTimerCallback rfl rfl rfl (by rintro x (rfl | rfl) <;> rfl)
    (all_countUp rfl (fun _ => rfl) fun _ => all_flashSet rfl rfl rfl) rfl

theorem keeps_timerCallback (x : Timer) : Keeps .timer (timerCallback x) :=
  built_timerCallback (All.compositional fun o => may .timer o = true) (All.perform rfl) (fun _ => All.perform rfl)
    keeps_motoCycleTimerCallback keeps_enterLowPower x

theorem keeps_openLcdDisplay : Keeps .button openLcdDisplay := by
  unfold openLcdDisplay lcdInit
  repeat' first
    | intro _ | with_reducible apply All.bind | with_reducible exact All.pure _ | split | exact All.perform rfl

theorem keeps_keyCallback (k : Key) : Keeps .button (keyCallback k) := by
  cases k
  all_goals
    simp only [keyCallback, keySemRelease, k2LongSemRelease, k2LongFreeRelease, screenTimerRefresh, incr]
    repeat' first
      | with_reducible exact keeps_openLcdDisplay | intro _ | with_reducible apply All.bind
      | with_reducible apply All.when | exact All.perform rfl

theorem keeps_rtcCheckCallback : Keeps .rtcCheck rtcCheckCallback := by
  simp only [rtcCheckCallback, rtcCheckSchedule, lowPowerTimerStart, Schedule.jump, jumptoReminder, jumptoAutomatic,
    countUp, flashSet]
  repeat' first
    | intro _ | with_reducible apply All.bind | with_reducible apply All.when | with_reducible apply All.ite
    | exact All.perform rfl

theorem keeps_dataParsing (ch : UInt8) : Keeps .serial (dataParsing ch) := by
  simp only [dataParsing]
  repeat' first
    | intro _ | with_reducible apply All.bind | with_reducible apply All.when | exact All.perform rfl

theorem keeps_batteryWatcherCallback : Keeps .battery batteryWatcherCallback := by
  simp only [batteryWatcherCallback, jumpToBatteryNew, jumpToBatteryEmpty]
  repeat' first
    | intro _ | with_reducible apply All.bind | with_reducible apply All.when | with_reducible apply All.ite
    | exact All.perform rfl

/-! ### The editors

Windows 4 to 6, 15 to 17 and 19 draw themselves, change what they show with K0 and K1 and go on
with K2. Only the last writes anything that is not their own. -/

/-- What editor `w` does to show what it edits and to change it. -/
def dialMay (w : Win) : Op → Bool
  | .load _ | .sprintf _ _ => true
  | .setButton i _ | .guiButton i => i ≤ 3
  | .store v n => match v with
    | .nowButtonId => n ≤ 2
    | .weekTemp k | .dayTemp k | .enableTemp k => w == k.win
    | .deltapressEnableTemp | .setDeltaTemp | .setHardnessTemp | .setBackwashTemp => true
    | _ => false
  | _ => false

/-- The function of a window that does nothing else before it goes on with `select`. -/
def Edits (w : Win) (p select : Code Unit) : Prop :=
  ∃ draw up down, p = window w draw (do
      let k ← takeKeys
      when (k.k0 = true) up
      when (k.k1 = true) down
      when (k.k2 = true) select) ∧
    (draw.All fun o => o = .store (.firstFlag w) 1 ∨ dialMay w o = true) ∧
    (up.All fun o => dialMay w o = true) ∧ down.All fun o => dialMay w o = true

section
variable {w : Win}

/-- A part that begins by marking the window as drawn. -/
theorem draws_first {p : Code Unit} (hp : p.All fun o => dialMay w o = true) :
    (do store (.firstFlag w) 1; p : Code Unit).All fun o => o = .store (.firstFlag w) 1 ∨ dialMay w o = true :=
  All.bind (All.perform (.inl rfl)) fun _ => hp.mono fun _ => .inr

theorem dial_drawButton (i n : Nat) (hi : i ≤ 3) : (drawButton i n).All fun o => dialMay w o = true :=
  all_drawButton (decide_eq_true hi) (decide_eq_true hi)

theorem dial_drawThree (a b c : Nat) : (drawButtons [a, b, c]).All fun o => dialMay w o = true :=
  All.bind (dial_drawButton 0 a (by decide)) fun _ => All.bind (dial_drawButton 1 b (by decide)) fun _ =>
    All.bind (dial_drawButton 2 c (by decide)) fun _ => All.pure ()

theorem dial_drawFour (a b c d : Nat) : (drawButtons [a, b, c, d]).All fun o => dialMay w o = true :=
  All.bind (dial_drawButton 0 a (by decide)) fun _ => All.bind (dial_drawButton 1 b (by decide)) fun _ =>
    All.bind (dial_drawButton 2 c (by decide)) fun _ => All.bind (dial_drawButton 3 d (by decide)) fun _ => All.pure ()

theorem dial_toggleSave : toggleSave.All fun o => dialMay w o = true := by
  refine All.bind (All.perform rfl) fun (b : Nat) => ?_
  split
  · exact All.bind (All.perform rfl) fun _ => All.bind (dial_drawButton 1 0 (by decide)) fun _ =>
      dial_drawButton 2 1 (by decide)
  · exact All.bind (All.perform rfl) fun _ => All.bind (dial_drawButton 1 1 (by decide)) fun _ =>
      dial_drawButton 2 0 (by decide)
  · exact All.pure ()

/-- The two buttons of a switch, drawn from its copy. -/
theorem dial_drawSwitch (v : Var) {p : Code Unit} (hp : p.All fun o => dialMay w o = true) : (do
    let n ← load v
    drawButton 0 (notFlag n)
    let n ← load v
    drawButton 1 n
    p : Code Unit).All fun o => dialMay w o = true :=
  All.bind (All.perform rfl) fun _ => All.bind (dial_drawButton 0 _ (by decide)) fun _ =>
    All.bind (All.perform rfl) fun _ => All.bind (dial_drawButton 1 _ (by decide)) fun _ => hp

end

theorem edits_userMain6WinFun (display : Code Unit) : Edits .w6 (userMain6WinFun display) (do
    store (.firstFlag .w6) 0
    let n ← load .deltapressEnableTemp
    store .deltapressEnable n
    let n ← load .deltapressEnableTemp
    flashSet 7 n
    guiWinDeleteTop
    display) := by
  have htoggle : (do
      let n ← load .deltapressEnableTemp
      store .deltapressEnableTemp (notFlag n)
      setSwitch .deltapressEnableTemp
      guiButton 0
      guiButton 1 : Code Unit).All fun o => dialMay .w6 o = true :=
    All.bind (All.perform rfl) fun _ => All.bind (All.perform rfl) fun _ =>
      All.bind (all_setSwitch rfl (fun _ => rfl) fun _ => rfl) fun _ => All.bind (All.perform rfl) fun _ => All.perform rfl
  refine ⟨_, _, _, rfl, draws_first ?_, htoggle, htoggle⟩
  exact All.bind (All.perform rfl) fun _ => All.bind (All.perform rfl) fun _ =>
    dial_drawSwitch .deltapressEnableTemp (dial_drawButton 3 1 (by decide))

theorem edits_userMain15WinFun (display : Code Unit) : Edits .w15 (userMain15WinFun display) (do
    let n ← load .setDeltaTemp
    store .settingDeltapress n
    let n ← load .setDeltaTemp
    flashSet 12 n
    guiWinDeleteTop
    display
    store (.firstFlag .w15) 0) := by
  have htoggle : (do
      let n ← load .setDeltaTemp
      store .setDeltaTemp (notFlag n)
      let n ← load .setDeltaTemp
      drawButton 0 (notFlag n)
      let n ← load .setDeltaTemp
      drawButton 1 n : Code Unit).All fun o => dialMay .w15 o = true :=
    All.bind (All.perform rfl) fun _ => All.bind (All.perform rfl) fun _ => All.bind (All.perform rfl) fun _ =>
      All.bind (dial_drawButton 0 _ (by decide)) fun _ => All.bind (All.perform rfl) fun _ =>
        dial_drawButton 1 _ (by decide)
  refine ⟨_, _, _, rfl, draws_first ?_, htoggle, htoggle⟩
  exact All.bind (All.perform rfl) fun _ => All.bind (All.perform rfl) fun _ =>
    dial_drawSwitch .setDeltaTemp (dial_drawButton 3 1 (by decide))

/-- How windows 16 and 17 go on: the number is chosen, saved or dropped. -/
def numberSelect (display : Code Unit) (w : Win) (setting temp : Var) (id : Nat) : Code Unit := do
  let b ← load .nowButtonId
  match b with
  | 0 => do
    store .nowButtonId 1
    drawButton 0 0
    drawButton 1 1
  | 1 => do
    let n ← load temp
    store setting n
    let n ← load temp
    flashSet id n
    guiWinDeleteTop
    display
    store (.firstFlag w) 0
  | 2 => do
    guiWinDeleteTop
    display
    store (.firstFlag w) 0
  | _ => pure ()

theorem edits_numberWinFun {w : Win} {setting temp : Var} {first : Code Nat} {down up : Code Unit} (display : Code Unit)
    (x : Text) (id : Nat) (htemp : ∀ n, dialMay w (.store temp n) = true) (hfirst : first.All fun o => dialMay w o = true)
    (hdown : down.All fun o => dialMay w o = true) (hup : up.All fun o => dialMay w o = true) :
    Edits w (numberWinFun display w setting temp first x id down up) (numberSelect display w setting temp id) := by
  have hedit : ∀ change : Code Unit, (change.All fun o => dialMay w o = true) → (do
      let b ← load .nowButtonId
      if b = 0 then do
        change
        let n ← load temp
        sprintf x n
        guiButton 0
      else toggleSave : Code Unit).All fun o => dialMay w o = true := fun change hchange =>
    All.bind (All.perform rfl) fun _ => All.ite (All.bind hchange fun _ => All.bind (All.perform rfl) fun _ =>
      All.bind (All.perform rfl) fun _ => All.perform rfl) dial_toggleSave
  refine ⟨_, _, _, rfl, draws_first ?_, hedit _ hdown, hedit _ hup⟩
  exact All.bind hfirst fun _ => All.bind (All.perform (htemp _)) fun _ => All.bind (All.perform rfl) fun _ =>
    All.bind (All.perform rfl) fun _ => All.bind (All.perform rfl) fun _ => dial_drawFour 1 0 0 1

theorem edits_userMain16WinFun (display : Code Unit) :
    Edits .w16 (userMain16WinFun display) (numberSelect display .w16 .settingHardness .setHardnessTemp 13) :=
  edits_numberWinFun display _ _ (fun _ => rfl) (All.pure _)
    (All.bind (All.perform rfl) fun _ => All.when (All.perform rfl)) (All.bind (All.perform rfl) fun _ => All.perform rfl)

theorem edits_userMain17WinFun (display : Code Unit) :
    Edits .w17 (userMain17WinFun display) (numberSelect display .w17 .settingBackwashtime .setBackwashTemp 14) :=
  edits_numberWinFun display _ _ (fun _ => rfl) (All.perform rfl)
    (All.bind (All.perform rfl) fun _ => All.when (All.perform rfl))
    (All.bind (All.perform rfl) fun _ => All.when (All.perform rfl))

theorem edits_userMain19WinFun (display : Code Unit) : Edits .w19 (userMain19WinFun display) (do
    let b ← load .nowButtonId
    match b with
    | 0 => do
      flashFactory
      cpuReset
    | 1 => do
      guiWinDeleteTop
      display
      store (.firstFlag .w19) 0
    | _ => pure ()) := by
  refine ⟨_, _, _, rfl, draws_first (All.bind (All.perform rfl) fun _ => dial_drawThree 1 0 1), ?_, ?_⟩
  · refine All.bind (All.perform rfl) fun (b : Nat) => ?_
    split
    · exact All.bind (All.perform rfl) fun _ => All.bind (All.perform rfl) fun _ => All.bind (All.perform rfl) fun _ =>
        All.bind (All.perform rfl) fun _ => All.perform rfl
    · exact All.bind (All.perform rfl) fun _ => All.bind (All.perform rfl) fun _ => All.bind (All.perform rfl) fun _ =>
        All.bind (All.perform rfl) fun _ => All.perform rfl
    · exact All.pure ()
  · refine All.bind (All.perform rfl) fun (b : Nat) => ?_
    split
    · exact All.bind (All.perform rfl) fun _ => All.bind (dial_drawButton 0 0 (by decide)) fun _ =>
        dial_drawButton 1 1 (by decide)
    · exact All.bind (All.perform rfl) fun _ => All.bind (dial_drawButton 0 1 (by decide)) fun _ =>
        dial_drawButton 1 0 (by decide)
    · exact All.pure ()

section
variable (k : Schedule)

theorem dial_schedule (v : Var) (n : Nat) (hv : v = .weekTemp k ∨ v = .dayTemp k ∨ v = .enableTemp k) :
    dialMay k.win (.store v n) = true := by
  rcases hv with rfl | rfl | rfl <;> exact beq_self_eq_true _

theorem dial_drawEnable : (drawEnable k).All fun o => dialMay k.win o = true :=
  All.bind (All.perform rfl) fun _ => All.when (All.perform rfl)

/-- A field of a schedule is printed anew. -/
theorem dial_printed (v : Var) (x : Text) (i : Nat) (hi : i ≤ 3) : (do
    let n ← load v
    sprintf x n
    guiButton i : Code Unit).All fun o => dialMay k.win o = true :=
  All.bind (All.perform rfl) fun _ => All.bind (All.perform rfl) fun _ => All.perform (decide_eq_true hi)

theorem dial_scheduleUp : (scheduleUp k).All fun o => dialMay k.win o = true := by
  have hstore := dial_schedule k
  refine All.bind (All.perform rfl) fun (n : Nat) => ?_
  split
  · exact All.bind (All.bind (All.perform rfl) fun _ => All.bind (All.perform (hstore _ _ (.inl rfl))) fun _ =>
      All.when (All.perform (hstore _ _ (.inl rfl)))) fun _ => dial_printed k _ _ 1 (by decide)
  · exact All.bind (All.bind (All.perform rfl) fun _ => All.bind (All.perform (hstore _ _ (.inr (.inl rfl)))) fun _ =>
      All.when (All.perform (hstore _ _ (.inr (.inl rfl))))) fun _ => dial_printed k _ _ 2 (by decide)
  · refine All.bind (All.perform rfl) fun _ => All.bind (All.ite ?_ ?_) fun _ => dial_drawEnable k
    · exact all_decr rfl fun _ => hstore _ _ (.inr (.inr rfl))
    · exact All.perform (hstore _ _ (.inr (.inr rfl)))
  · exact All.pure ()

theorem dial_scheduleDown : (scheduleDown k).All fun o => dialMay k.win o = true := by
  have hstore := dial_schedule k
  refine All.bind (All.perform rfl) fun (n : Nat) => ?_
  split
  · exact All.bind (All.bind (All.perform rfl) fun _ => All.bind (All.perform (hstore _ _ (.inl rfl))) fun _ =>
      All.when (All.perform (hstore _ _ (.inl rfl)))) fun _ => dial_printed k _ _ 1 (by decide)
  · exact All.bind (All.bind (All.perform rfl) fun _ => All.bind (All.perform (hstore _ _ (.inr (.inl rfl)))) fun _ =>
      All.when (All.perform (hstore _ _ (.inr (.inl rfl))))) fun _ => dial_printed k _ _ 2 (by decide)
  · refine All.bind (All.perform rfl) fun _ => All.bind (All.ite ?_ ?_) fun _ => dial_drawEnable k
    · exact all_incr rfl fun _ => hstore _ _ (.inr (.inr rfl))
    · exact All.perform (hstore _ _ (.inr (.inr rfl)))
  · exact All.pure ()

theorem edits_scheduleWinFun (display : Code Unit) : Edits k.win (scheduleWinFun display k) (scheduleSelect display k) := by
  have hstore : ∀ v n, v = .weekTemp k ∨ v = .dayTemp k ∨ v = .enableTemp k →
      (store v n).All fun o => o = .store (.firstFlag k.win) 1 ∨ dialMay k.win o = true := fun v n hv =>
    All.perform (.inr (dial_schedule k v n hv))
  have hload : ∀ v, (load v).All fun o => o = .store (.firstFlag k.win) 1 ∨ dialMay k.win o = true := fun v =>
    All.perform (.inr rfl)
  refine ⟨_, _, _, rfl, ?_, dial_scheduleUp k, dial_scheduleDown k⟩
  refine All.bind (hload _) fun _ => All.bind (hstore _ _ (.inl rfl)) fun _ => All.bind (hload _) fun _ =>
    All.bind (hstore _ _ (.inr (.inl rfl))) fun _ => All.bind (hload _) fun _ =>
      All.bind (hstore _ _ (.inr (.inr rfl))) fun _ => draws_first ?_
  exact All.bind (dial_drawButton 0 1 (by decide)) fun _ => All.bind (All.perform rfl) fun _ =>
    All.bind (All.perform rfl) fun _ => All.bind (dial_drawButton 1 1 (by decide)) fun _ => All.bind (All.perform rfl) fun _ =>
      All.bind (All.perform rfl) fun _ => All.bind (dial_drawButton 2 0 (by decide)) fun _ =>
        dial_drawButton 3 0 (by decide)

end

/-! ### The display thread

A window function displays other windows in turn, so it is taken apart once, for
any property that passes from the parts of a program to the whole. -/

/-- What the display thread does, short of entering a window and of the request
that window 2 makes. -/
def windowMay (o : Op) : Bool :=
  may .lcd o && match o with
    | .mark (.winFun _) | .mark (.motoCycle .userMain2WinFun) => false
    | _ => true

/-- What a call of `Moto_Cycle` does, once entered. -/
def requestMay : Op → Bool
  | .load _ => true
  | .store v n => match v with
    | .rtcTime _ => n == 0
    | .jumpToBatteryEmptyFlag => n == 1
    | _ => false
  | .pinWrite p _ => p == .ledR || p == .ledG
  | .adcRead c => c == .dc
  | .motoSend b => b == .forward
  | .jumpSend b => b == .exit
  | .timerStart x => x == .motoCycle
  | .timerStop x => x == .screenBacklight || x == .screenVcc
  | .timerControl x _ => x == .motoCycle
  | _ => false

/-- What one window function does of all that the display thread does, the display
of another window apart. -/
def ownMay (w : Win) : Op → Bool
  | .load _ | .mdelay _ | .semTake _ | .keyStatus _ | .setButton _ _ | .guiButton _ | .sprintf _ _ | .efBegin _
  | .efSet _ _ | .guiWinDeleteTop | .cpuReset => true
  | .store v n => match v with
    | .firstFlag u => u == w && (n == 0 || n == 1)
    | .nowSetting | .weekTemp _ | .dayTemp _ | .enableTemp _ => w == .w4 || w == .w5
    | .rtcTime _ => w == .w2 || w == .w4 || w == .w5
    | .win1PageID => w == .w1
    | .jumpFlag => w == .w3 && (n == 0 || n == 1)
    | .jumpToBatteryEmptyFlag => w == .w2 && n == 1
    | .jumptoAutomaticFlag => w == .w25 && n == 1
    | .jumptoReminderFlag | .jumpToBatteryNewFlag | .deltaPressWorkFlag | .lcdFlag => false
    | _ => true
  | .pinWrite p _ => (w == .w2 || w == .w3) && (p == .ledR || p == .ledG)
  | .jumpRecv | .semJump => w == .w3
  | .guiWinInit => w == .w3 || w == .w25
  | .guiWinAdd _ => match w with
    | .w1 | .w2 | .w3 | .w7 | .w8 | .w14 | .w21 | .w22 | .w25 => true
    | _ => false
  | .mark m => match m with
    | .motoCycle c => w == .w2 && c == .userMain2WinFun
    | .flashFactory => w == .w19
    | .jumptoAutomatic => w == .w25
    | _ => false
  | o => w == .w2 && requestMay o

def winMay (w : Win) (o : Op) : Bool := may .lcd o && ownMay w o

/-- Of the settings, the counters and the store a window writes its own only. -/
def saves (w : Win) : Op → Bool
  | .store v _ => match v with
    | .week k | .day k | .enable k | .weekTemp k | .dayTemp k | .enableTemp k => w == k.win
    | .deltapressEnable => w == .w6
    | .settingDeltapress => w == .w15
    | .settingHardness => w == .w16
    | .settingBackwashtime => w == .w17
    | .settingLanguage => w == .w20
    | .counter .manual => w == .w2 || w == .w9
    | .counter .automatic => w == .w10 || w == .w25
    | .counter .deltapress => w == .w11
    | .counter .error => w == .w12
    | _ => true
  | .efBegin id | .efSet id _ => match w with
    | .w2 | .w9 => id == 8
    | .w4 => id == 1 || id == 2 || id == 3
    | .w5 => id == 4 || id == 5 || id == 6
    | .w6 => id == 7
    | .w10 | .w25 => id == 9
    | .w11 => id == 10
    | .w12 => id == 11
    | .w15 => id == 12
    | .w16 => id == 13
    | .w17 => id == 14
    | .w19 => true
    | .w20 => id == 15
    | _ => false
  | _ => true

def saveMay (w : Win) (o : Op) : Bool := winMay w o && saves w o

/-- The windows that format a text. -/
def formats (w : Win) : Text → Bool
  | .weekstring | .daystring => w == .w4 || w == .w5
  | .manualString => w == .w9
  | .automaticString => w == .w10
  | .deltaString => w == .w11
  | .errorString => w == .w12
  | .hardnessString => w == .w16
  | .backwashString => w == .w17
  | .tdsPasswordString => w == .w21
  | .currentTds23 => w == .w23
  | .currentTds24 => w == .w24

/-- Nor does it write the numbers another window edits, or their texts. -/
def edits (w : Win) : Op → Bool
  | .store v _ => match v with
    | .setHardnessTemp => w == .w16
    | .setBackwashTemp => w == .w17
    | _ => true
  | .sprintf x _ => formats w x
  | _ => true

def editMay (w : Win) (o : Op) : Bool := saveMay w o && edits w o

/-- What a pass of the display thread does after the display: the requests, short of
opening the display and of the call of `Moto_Cycle`. -/
def taskMay : Op → Bool
  | .load _ | .mdelay _ | .efBegin _ | .memsetFirstFlag => true
  | .efSet id _ => id == 9 || id == 10
  | .store v n => match v with
    | .deltaPressWorkFlag | .jumpToBatteryEmptyFlag | .jumpToBatteryNewFlag => n == 0
    | .jumptoReminderFlag | .jumptoAutomaticFlag => n == 0 || n == 1
    | .firstFlag u => n == 0 && (u == .w3 || u == .w25)
    | .counter _ => true
    | _ => false
  | .guiWinAdd w => w == .w3 || w == .w25 || w == .w26 || w == .w27
  | .timerStart x => x == .screenBacklight || x == .screenVcc
  | .mark m => m == .jumptoReminder || m == .jumptoAutomatic
  | _ => false

/-- What `OpenLcdDisplay` does. -/
def openMay : Op → Bool
  | .load v => v == .lcdFlag
  | .store v n => v == .lcdFlag && (n == 0 || n == 1)
  | .pinWrite p b => match p with
    | .lcdEn | .lcdBl => b
    | .lcdRst => true
    | _ => false
  | .mark m => m == .lcdInit
  | _ => false

/-- The operation makes or answers an automatic request. -/
def isAutomatic : Op → Bool
  | .store .jumptoAutomaticFlag _ | .mark .jumptoAutomatic => true
  | _ => false

/-- The operations of `Moto_Cycle` that window 2 has no other use for. -/
def requestOnly : Op → Bool
  | .motoSend _ | .jumpSend _ | .timerStart _ | .timerStop _ | .timerControl _ _ | .adcRead _ | .mark _ => true
  | _ => false

/-! The tables of the parts lie within that of the thread. -/

theorem winMay_of_requestMay {o : Op} (h : requestMay o = true) : winMay .w2 o = true := by
  cases o with
  | store v n =>
    cases v with
    | rtcTime k => exact Bool.and_eq_true_iff.mpr ⟨h, rfl⟩
    | jumpToBatteryEmptyFlag => exact Bool.and_eq_true_iff.mpr ⟨rfl, h⟩
    | _ => cases h
  | pinWrite p b => cases p <;> first | rfl | cases h
  | motoSend b => cases b <;> first | rfl | cases h
  | jumpSend b => cases b <;> first | rfl | cases h
  | timerStart x => cases x <;> first | rfl | cases h
  | timerStop x => cases x <;> first | rfl | cases h
  | timerControl x n => cases x <;> first | rfl | cases h
  | adcRead c => cases c <;> first | rfl | cases h
  | load v => rfl
  | _ => cases h

theorem editMay_of_requestMay {o : Op} (h : requestMay o = true) : editMay .w2 o = true := by
  refine Bool.and_eq_true_iff.mpr ⟨Bool.and_eq_true_iff.mpr ⟨winMay_of_requestMay h, ?_⟩, ?_⟩
  · cases o with
    | store v n => cases v <;> first | rfl | cases h
    | efBegin id => cases h
    | efSet id n => cases h
    | _ => rfl
  · cases o with
    | store v n => cases v <;> first | rfl | cases h
    | sprintf x n => cases h
    | _ => rfl

theorem windowMay_of_winMay {w : Win} {o : Op} (hw : w ≠ .w2) (h : winMay w o = true) : windowMay o = true := by
  obtain ⟨hmay, hown⟩ := Bool.and_eq_true_iff.mp h
  refine Bool.and_eq_true_iff.mpr ⟨hmay, ?_⟩
  have h2 : (w == .w2) = false := by simpa using hw
  cases o with
  | mark m => cases m <;> simp_all [ownMay]
  | _ => rfl

theorem windowMay_of_requestMay {o : Op} (h : requestMay o = true) : windowMay o = true := by
  refine Bool.and_eq_true_iff.mpr ⟨(Bool.and_eq_true_iff.mp (winMay_of_requestMay h)).1, ?_⟩
  cases o <;> first | rfl | cases h

theorem windowMay_of_taskMay {o : Op} (h : taskMay o = true) : windowMay o = true := by
  cases o with
  | store v n => cases v <;> first | rfl | cases h
  | efSet id n =>
    have hid : id = 9 ∨ id = 10 := by simpa [taskMay] using h
    rcases hid with rfl | rfl <;> rfl
  | timerStart x => cases x <;> first | rfl | cases h
  | mark m => cases m <;> first | rfl | cases h
  | load v => rfl
  | mdelay n => rfl
  | efBegin id => rfl
  | memsetFirstFlag => rfl
  | guiWinAdd w => rfl
  | _ => cases h

theorem windowMay_of_openMay {o : Op} (h : openMay o = true) : windowMay o = true := by
  cases o with
  | store v n => cases v <;> first | rfl | cases h
  | pinWrite p b => cases p <;> first | rfl | cases h
  | mark m => cases m <;> first | rfl | cases h
  | load v => rfl
  | _ => cases h

section
variable {P : ∀ {α : Type}, Code α → Prop} (hP : Compositional P)
include hP

theorem built_takeKeys (hop : ∀ k, P (semTake k)) : P takeKeys :=
  hP.bind (hop .k0) fun _ => hP.bind (hop .k1) fun _ => hP.bind (hop .k2) fun _ => hP.bind (hop .k2Long) fun _ => hP.pure _

theorem built_keyStatuses (hop : ∀ k, P (keyStatus k)) : P keyStatuses :=
  hP.bind (hop .k0) fun _ => hP.bind (hop .k1) fun _ => hP.bind (hop .k2) fun _ => hP.bind (hop .k2Long) fun _ => hP.pure _

/-- The two buttons of window 2 change places. -/
theorem built_toggleTwo (hload : P (load .nowButtonId)) (hstore : ∀ n, n ≤ 1 → P (store .nowButtonId n))
    (hset : ∀ i n, i ≤ 1 → P (setButton i n)) (hdraw : ∀ i, i ≤ 1 → P (guiButton i)) : P toggleTwo := by
  have hboth : P (do guiButton 0; guiButton 1) := hP.bind (hdraw 0 (by decide)) fun _ => hdraw 1 (by decide)
  refine hP.bind hload fun (b : Nat) => ?_
  split
  · exact hP.bind (hstore 1 (by decide)) fun _ => hP.bind (hset 0 0 (by decide)) fun _ =>
      hP.bind (hset 1 1 (by decide)) fun _ => hboth
  · exact hP.bind (hstore 0 (by decide)) fun _ => hP.bind (hset 0 1 (by decide)) fun _ =>
      hP.bind (hset 1 0 (by decide)) fun _ => hboth
  · exact hP.pure ()

theorem built_drawButtons (hop : ∀ i n, P (setButton i n) ∧ P (guiButton i)) (flags : List Nat) :
    P (drawButtons flags) := by
  refine hP.foldr (fun x => ?_) _
  exact hP.bind (hop x.2 x.1).1 fun _ => (hop x.2 x.1).2

theorem built_flashFactory (hop : ∀ o, editMay .w19 o = true → P (perform o)) : P flashFactory := by
  refine hP.bind (hop _ rfl) fun _ => hP.foldr (fun i => ?_) _
  refine hP.bind (hop _ rfl) fun _ => hP.bind (hop _ ?_) fun _ => hop (.mdelay 10) rfl
  simp [editMay, saveMay, winMay, ownMay, saves, edits, may, lcdMay]

theorem built_motoCycle (hop : ∀ o, requestMay o = true → P (perform o)) {Q : Code Unit → Prop} {caller : Caller}
    (hmark : ∀ p, P p → Q (do mark (.motoCycle caller); p)) : Q (motoCycle caller) := by
  refine hmark _ ?_
  simp only [rtcClear, motoCycleSupplied, motoCycleAccept, getDcLevel, screenTimerStop, greenLight, redOff, jumpe,
    jumpToBatteryEmpty]
  repeat' first
    | intro _ | with_reducible apply hP.bind | with_reducible apply hP.when | split | with_reducible exact hP.pure _
    | exact hop _ rfl

theorem built_openLcdDisplay (hop : ∀ o, openMay o = true → P (perform o)) : P openLcdDisplay := by
  unfold openLcdDisplay lcdInit
  repeat' first
    | intro _ | with_reducible apply hP.bind | with_reducible exact hP.pure _ | split | exact hop _ rfl

theorem built_jumptoAutomatic {W : Op → Bool} (hop : ∀ o, W o = true → P (perform o))
    (hW : ∀ o, editMay .w25 o && taskMay o → W o = true) : P jumptoAutomatic := by
  simp only [jumptoAutomatic, countUp, flashSet]
  repeat' first
    | intro _ | with_reducible apply hP.bind | exact hop _ (hW _ rfl)

theorem edits_scheduleSave (k : Schedule) (hop : ∀ o, editMay k.win o = true → P (perform o)) : P (scheduleSave k) := by
  cases k
  all_goals
    simp only [scheduleSave, flashSet]
    repeat' first
      | intro _ | with_reducible apply hP.bind | with_reducible apply hP.when | exact hop _ rfl

theorem built_userMain1WinFun {display : Code Unit} (hd : P display)
    (hop : ∀ o, editMay .w1 o = true → P (perform o)) : P (userMain1WinFun display) := by
  simp only [userMain1WinFun, window, userMain1Draw, takeKeys, keyStatuses, userMain1Up, userMain1Down,
    userMain1Select, drawButton, drawNowButton, incr, decr]
  repeat' first
    | with_reducible exact hd | intro _ | with_reducible apply hP.bind | with_reducible apply hP.when
    | with_reducible exact hP.pure _ | split | exact hop _ rfl

/-- Window 2, from its request and what it does besides. -/
theorem built_requestWinFun (hmoto : P (motoCycle .userMain2WinFun))
    (hop : ∀ o, (editMay .w2 o && !requestOnly o) = true → P (perform o)) : P userMain2WinFun := by
  have hdraw : ∀ flags, P (drawButtons flags) := built_drawButtons hP fun i n =>
    ⟨hop (.setButton i n) rfl, hop (.guiButton i) rfl⟩
  simp only [userMain2WinFun, window, takeKeys, toggleTwo, countUp, flashSet]
  repeat' first
    | with_reducible exact hdraw _ | with_reducible exact hmoto | intro _ | with_reducible apply hP.bind
    | with_reducible apply hP.when | with_reducible exact hP.pure _ | split | exact hop _ rfl

theorem built_userMain2WinFun (hop : ∀ o, editMay .w2 o = true → P (perform o)) : P userMain2WinFun :=
  built_requestWinFun hP
    (built_motoCycle hP (fun o ho => hop o (editMay_of_requestMay ho)) fun _ hp => hP.bind (hop _ rfl) fun _ => hp)
    fun o ho => hop o (Bool.and_eq_true_iff.mp ho).1

theorem built_scheduleWinFun {display : Code Unit} (hd : P display) (k : Schedule)
    (hop : ∀ o, editMay k.win o = true → P (perform o)) : P (scheduleWinFun display k) := by
  have hsave := edits_scheduleSave hP k hop
  cases k
  all_goals
    simp only [scheduleWinFun, window, scheduleDraw, takeKeys, scheduleUp, scheduleDown, scheduleSelect, wrapUp,
      wrapDown, drawEnable, drawButton, incr, decr]
    repeat' first
      | with_reducible exact hd | with_reducible exact hsave | intro _ | with_reducible apply hP.bind
      | with_reducible apply hP.when | with_reducible exact hP.pure _ | split | exact hop _ rfl

theorem built_userMain14WinFun (hop : ∀ o, editMay .w14 o = true → P (perform o)) : P userMain14WinFun := by
  have hdraw : ∀ flags, P (drawButtons flags) := built_drawButtons hP fun i n =>
    ⟨hop (.setButton i n) rfl, hop (.guiButton i) rfl⟩
  simp only [userMain14WinFun, window, userMain14Draw, takeKeys, userMain14Up, userMain14Down, userMain14Select,
    userMain14Entry, storePage, drawNowButton, drawButton, incr, decr]
  repeat' first
    | with_reducible exact hdraw _ | intro _ | with_reducible apply hP.bind | with_reducible apply hP.when
    | with_reducible exact hP.pure _ | split | exact hop _ rfl

theorem built_numberWinFun {display : Code Unit} (hd : P display) {w : Win} (hw : w = .w16 ∨ w = .w17)
    (hop : ∀ o, editMay w o = true → P (perform o)) : P (winFun display w) := by
  have hdraw : ∀ flags, P (drawButtons flags) := built_drawButtons hP fun i n =>
    ⟨hop (.setButton i n) (by rcases hw with rfl | rfl <;> rfl), hop (.guiButton i) (by rcases hw with rfl | rfl <;> rfl)⟩
  rcases hw with rfl | rfl
  all_goals
    simp only [winFun, userMain16WinFun, userMain17WinFun, numberWinFun, window, takeKeys, toggleSave, drawButton,
      flashSet]
    repeat' first
      | with_reducible exact hd | with_reducible exact hdraw _ | intro _ | with_reducible apply hP.bind
      | with_reducible apply hP.when | with_reducible exact hP.pure _ | split | exact hop _ rfl

/-- A window function, from its operations and the display of another window. -/
theorem edits_winFun {display : Code Unit} (hd : P display) {w : Win}
    (hop : ∀ o, editMay w o = true → P (perform o)) : P (winFun display w) := by
  have hdraw : ∀ flags, P (drawButtons flags) := built_drawButtons hP fun i n =>
    ⟨hop (.setButton i n) (by cases w <;> rfl), hop (.guiButton i) (by cases w <;> rfl)⟩
  cases w
  case w1 => exact built_userMain1WinFun hP hd hop
  case w2 => exact built_userMain2WinFun hP hop
  case w4 => exact built_scheduleWinFun hP hd .reminder hop
  case w5 => exact built_scheduleWinFun hP hd .automatic hop
  case w14 => exact built_userMain14WinFun hP hop
  case w16 => exact built_numberWinFun hP hd (.inl rfl) hop
  case w17 => exact built_numberWinFun hP hd (.inr rfl) hop
  all_goals
    simp only [winFun, window, takeKeys, incr, decr, drawButton, drawNowButton, flashSet, userMain3WinFun, showOutcome,
      leaveProgress, redOff, greenOff, redLight, setSwitch, userMain6WinFun, userMain15WinFun, menuUp, menuDown,
      userMain7WinFun, userMain8WinFun, counterWinFun, userMain9WinFun, userMain10WinFun, userMain11WinFun,
      userMain12WinFun, infoWinFun, userMain13WinFun, userMain18WinFun, userMain19WinFun, userMain19Up, userMain19Down,
      userMain20WinFun, saveLanguage, userMain21WinFun, userMain22WinFun, userMain23WinFun, tdsWork, userMain24WinFun,
      userMain25WinFun, alertWinFun, userMain26WinFun, userMain27WinFun]
    repeat' first
      | with_reducible exact hd | with_reducible exact hdraw _
      | with_reducible exact built_flashFactory hP hop
      | with_reducible exact built_jumptoAutomatic hP hop fun _ h => (Bool.and_eq_true_iff.mp h).1 | intro _
      | with_reducible apply hP.bind | with_reducible apply hP.when | with_reducible exact hP.pure _ | split
      | exact hop _ rfl

theorem saves_scheduleSave (k : Schedule) (hop : ∀ o, saveMay k.win o = true → P (perform o)) : P (scheduleSave k) :=
  edits_scheduleSave hP k fun o ho => hop o (Bool.and_eq_true_iff.mp ho).1

theorem saves_winFun {display : Code Unit} (hd : P display) {w : Win}
    (hop : ∀ o, saveMay w o = true → P (perform o)) : P (winFun display w) :=
  edits_winFun hP hd fun o ho => hop o (Bool.and_eq_true_iff.mp ho).1

theorem built_scheduleSave (k : Schedule) (hop : ∀ o, winMay k.win o = true → P (perform o)) : P (scheduleSave k) :=
  saves_scheduleSave hP k fun o ho => hop o (Bool.and_eq_true_iff.mp ho).1

theorem built_winFun {display : Code Unit} (hd : P display) {w : Win}
    (hop : ∀ o, winMay w o = true → P (perform o)) : P (winFun display w) :=
  saves_winFun hP hd fun o ho => hop o (Bool.and_eq_true_iff.mp ho).1

/-- A pass, from its display, the opening of the display, the automatic requests it makes and
answers, and its other operations. -/
theorem built_answeringTask {depth : Nat} (hd : P (guiWinDisplay depth)) (hopen : P openLcdDisplay)
    (hjump : P jumptoAutomatic) (hanswer : P (serve .jumptoAutomaticFlag do lcdtoBackwash; openLcdDisplay))
    (hop : ∀ o, (taskMay o && !isAutomatic o) = true → P (perform o)) : P (lcdTaskEntry depth) := by
  have hserve : ∀ flag work, (flag = .jumptoReminderFlag ∨ flag = .jumpToBatteryEmptyFlag ∨ flag = .jumpToBatteryNewFlag) →
      P work → P (serve flag work) := fun flag work hf hwork =>
    hP.bind (hop (.load flag) rfl) fun (n : Nat) => hP.when (hP.bind (hop (.store flag 0) (by
      rcases hf with rfl | rfl | rfl <;> rfl)) fun _ => hwork)
  simp only [lcdTaskEntry, deltaPressWork, jumptoReminder, lcdtoReminder, pushAlert, screenTimerRefresh, countUp,
    flashSet]
  repeat' first
    | with_reducible exact hd | with_reducible exact hanswer | with_reducible exact hopen
    | with_reducible refine hserve _ _ (by simp) ?_ | with_reducible exact hjump | intro _
    | with_reducible apply hP.bind | with_reducible apply hP.when | split | exact hop _ rfl

/-- The same, from the call of `Moto_Cycle` in that answer. -/
theorem built_lcdTaskEntry {depth : Nat} (hd : P (guiWinDisplay depth)) (hopen : P openLcdDisplay)
    (hmoto : P (motoCycle .lcdtoBackwash)) (hop : ∀ o, taskMay o = true → P (perform o)) :
    P (lcdTaskEntry depth) := by
  have hjump : P jumptoAutomatic := built_jumptoAutomatic hP hop fun _ h => (Bool.and_eq_true_iff.mp h).2
  refine built_answeringTask hP hd hopen hjump ?_ fun o ho => hop o (Bool.and_eq_true_iff.mp ho).1
  refine hP.bind (hop _ rfl) fun _ => hP.when (hP.bind (hop (.store .jumptoAutomaticFlag 0) rfl) fun _ => ?_)
  refine hP.bind (hP.bind (hop (.load (.firstFlag .w3)) rfl) fun (f : Nat) => hP.bind ?_ fun _ => hmoto) fun _ => hopen
  split
  · exact hP.bind (hop .memsetFirstFlag rfl) fun _ => hop (.guiWinAdd .w3) rfl
  · exact hop (.store (.firstFlag .w3) 0) rfl

end

theorem keeps_window {o : Op} (h : windowMay o = true) : Keeps .lcd (perform o) :=
  All.perform (Bool.and_eq_true_iff.mp h).1

theorem keeps_own {w : Win} {o : Op} (h : winMay w o = true) : Keeps .lcd (perform o) :=
  All.perform (Bool.and_eq_true_iff.mp h).1

theorem keeps_motoCycle (caller : Caller) : Keeps .lcd (motoCycle caller) :=
  built_motoCycle (All.compositional _) (fun _ h => keeps_window (windowMay_of_requestMay h))
    fun _ hp => All.bind (All.perform rfl) fun _ => hp

theorem keeps_scheduleSave (k : Schedule) : Keeps .lcd (scheduleSave k) :=
  built_scheduleSave (All.compositional _) k fun _ => keeps_own

theorem keeps_guiWinDisplay (depth : Nat) : Keeps .lcd (guiWinDisplay depth) := by
  induction depth with
  | zero => exact All.pure ()
  | succ depth ih =>
    refine All.bind (All.perform rfl) fun top => ?_
    cases top with
    | none => exact All.pure ()
    | some w =>
      exact All.bind (All.perform rfl) fun _ => built_winFun (All.compositional _) ih fun _ => keeps_own

theorem keeps_lcdTaskEntry (depth : Nat) : Keeps .lcd (lcdTaskEntry depth) :=
  built_lcdTaskEntry (All.compositional _) (keeps_guiWinDisplay depth)
    (built_openLcdDisplay (All.compositional _) fun _ h => keeps_window (windowMay_of_openMay h))
    (keeps_motoCycle _) fun _ h => keeps_window (windowMay_of_taskMay h)

/-- Every call keeps to what its thread may do. -/
theorem body_may (depth : Nat) (c : Call) : Keeps c.thread (body depth c) := by
  cases c with
  | motoEntry => exact keeps_motoEntry
  | expire x => exact keeps_timerCallback x
  | expireSemJump => exact All.perform rfl
  | enterLowPower => exact keeps_enterLowPower
  | key k => exact keeps_keyCallback k
  | rtcAlarm => exact All.pure ()
  | waterFlow => exact All.pure ()
  | rtcCheck => exact keeps_rtcCheckCallback
  | lcdTask => exact keeps_lcdTaskEntry depth
  | motoCycle caller => exact keeps_motoCycle caller
  | scheduleSave k => exact keeps_scheduleSave k
  | dataParsing ch => exact keeps_dataParsing ch
  | battery => exact keeps_batteryWatcherCallback
  | shell c => exact keeps_shellCmd c
  | tick n => exact All.pure ()

theorem keeps_halRtcAlarmAEventCallback : Keeps .irq halRtcAlarmAEventCallback := by
  simp only [halRtcAlarmAEventCallback, rtcTimerEntry, rtcCountUp]
  repeat' first
    | intro _ | with_reducible apply All.bind | with_reducible apply All.when | exact All.perform rfl

theorem keeps_deltaPress : Keeps .irq deltaPress := All.perform (o := Op.store .deltaPressWorkFlag 1) rfl

/-- What an interrupt can do in one step. -/
theorem irq_cases {o : Op} (h : may .irq o = true) :
    (∃ v, o = .load v) ∨ (∃ n, o = .mdelay n) ∨ (∃ k n, o = .store (.rtcTime k) n) ∨
    (∃ n, o = .store .deltaPressWorkFlag n) ∨ o = .semRelease .rtcCheck := by
  cases o with
  | load v => exact .inl ⟨v, rfl⟩
  | mdelay n => exact .inr (.inl ⟨n, rfl⟩)
  | store v n =>
    cases v with
    | rtcTime k => exact .inr (.inr (.inl ⟨k, n, rfl⟩))
    | deltaPressWorkFlag => exact .inr (.inr (.inr (.inl ⟨n, rfl⟩)))
    | _ => cases h
  | semRelease k => cases k <;> first | exact .inr (.inr (.inr (.inr rfl))) | cases h
  | _ => cases h

/-- What a call can do to the state as it begins. -/
theorem enter_cases (c : Call) (s : Device) :
    enter c s = s ∨ (∃ x, c = .expire x ∧ enter c s = s.stopTimer x) ∨
    (c = .expireSemJump ∧ enter c s = {s with semJump := s.semJump - 1}) ∨
    (∃ n, c = .tick n ∧ enter c s = {s with tick := s.tick + n}) ∨
    (c.thread = .irq ∧ ∃ p, Keeps .irq p ∧ enter c s = atomically .irq p s) := by
  cases c with
  | expire x => exact .inr (.inl ⟨x, rfl, rfl⟩)
  | expireSemJump => exact .inr (.inr (.inl ⟨rfl, rfl⟩))
  | tick n => exact .inr (.inr (.inr (.inl ⟨n, rfl, rfl⟩)))
  | rtcAlarm => exact .inr (.inr (.inr (.inr ⟨rfl, _, keeps_halRtcAlarmAEventCallback, rfl⟩)))
  | waterFlow => exact .inr (.inr (.inr (.inr ⟨rfl, _, keeps_deltaPress, rfl⟩)))
  | _ => exact .inl rfl

/-! ### The start -/

/-- What reading the store at the start does. -/
def bootMay : Op → Bool
  | .load _ | .mdelay _ | .efGet _ | .efBegin _ => true
  | .efSet id _ => id == 13 || id == 14
  | .store v _ => match v with
    | .rtcTime _ | .week _ | .day _ | .enable _ | .counter _ | .deltapressEnable | .settingDeltapress
    | .settingHardness | .settingBackwashtime | .settingLanguage => true
    | _ => false
  | _ => false

theorem boot_may_rtcInit : rtcInit.All fun o => bootMay o = true := by
  simp only [rtcInit, flashGet]
  repeat' first | intro _ | with_reducible apply All.bind | with_reducible exact All.pure _ | exact All.perform rfl

theorem boot_may_gotValue : gotValue.All fun o => bootMay o = true := by
  simp only [gotValue, flashGet, flashSet]
  repeat' first
    | intro _ | with_reducible apply All.bind | with_reducible apply All.when | with_reducible exact All.pure _
    | exact All.perform rfl

/-- A part of the state that reading the store does not touch is as at power-on. -/
theorem boot_keep {β : Type} {f : Device → β} (h : ∀ o s, bootMay o = true → f (exec .lcd o {} s).1 = f s)
    (flash : Nat → Nat) : f (boot flash) = f (powerOn flash) := by
  have hgot := atomically_keep (f := f) (boot_may_gotValue.mono fun o ho s => h o s ho)
  have hrtc := atomically_keep (f := f) (boot_may_rtcInit.mono fun o ho s => h o s ho)
  exact (hgot _).trans (hrtc _)

end Backwash.Firmware
