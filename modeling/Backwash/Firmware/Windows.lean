import Backwash.Firmware.Power

/-! The windows of lcd_display.c.

A window function runs on every pass of the display thread while its window is on
top. With its `FirstFlag` clear it draws itself; otherwise it takes at most one
token of each key and acts on them. Several windows call `GuiWinDisplay` again
after they have changed the stack, which runs the function of the new top window
inside the old one's; each window function therefore takes that call as an
argument. Of a button only its state (`flag`, 1 for selected) is kept. -/
namespace Backwash.Firmware
open Concurrent Prog

/-- `K0_Status` … `K2_Long_Status`: which keys had a token. -/
structure Keys where
  k0 : Bool
  k1 : Bool
  k2 : Bool
  k2Long : Bool

def takeKeys : Code Keys := do
  let k0 ← semTake .k0
  let k1 ← semTake .k1
  let k2 ← semTake .k2
  let k2Long ← semTake .k2Long
  pure ⟨k0, k1, k2, k2Long⟩

/-- The four as they are now: all windows share them, and a window function that was
displayed in between may have taken keys of its own. -/
def keyStatuses : Code Keys := do
  let k0 ← keyStatus .k0
  let k1 ← keyStatus .k1
  let k2 ← keyStatus .k2
  let k2Long ← keyStatus .k2Long
  pure ⟨k0, k1, k2, k2Long⟩

def incr (v : Var) : Code Unit := do
  let n ← load v
  store v (n + 1)

/-- Unsigned decrement: below zero the variable wraps. -/
def decr (v : Var) : Code Unit := do
  let n ← load v
  store v (n + (2 ^ v.width - 1))

/-- `tButton[i].flag = n; GuiButton(&tButton[i])`. -/
def drawButton (i n : Nat) : Code Unit := do
  setButton i n
  guiButton i

/-- `tButton[NowButtonId].flag = n; GuiButton(&tButton[NowButtonId])`. -/
def drawNowButton (n : Nat) : Code Unit := do
  let b ← load .nowButtonId
  drawButton b n

/-- The buttons from 0 on, drawn with the given states. -/
def drawButtons (flags : List Nat) : Code Unit :=
  flags.zipIdx.foldr (fun x rest => do drawButton x.2 x.1; rest) (pure ())

/-- `FirstFlag[w]` decides between drawing and reading the keys. -/
def window (w : Win) (draw keys : Code Unit) : Code Unit := do
  let f ← load (.firstFlag w)
  if f = 0 then draw else keys

/-- The logical negation of C. -/
def notFlag (n : Nat) : Nat := if n = 0 then 1 else 0

/-! ### Main menu, manual backwash, progress -/

def userMain1Draw : Code Unit := do
  let page ← load .win1PageID
  match page with
  | 0 => do
    store .nowButtonId 0
    setButton 0 1
    setButton 1 0
    setButton 2 0
    setButton 3 0
    setButton 4 1
    guiButton 4
    guiButton 0
    guiButton 1
    guiButton 2
    guiButton 3
    store (.firstFlag .w1) 1
  | 1 => do
    drawButton 0 1
    drawButton 4 1
    store (.firstFlag .w1) 1
  | 2 => do
    store .nowButtonId 3
    setButton 0 0
    setButton 1 0
    setButton 2 0
    setButton 3 1
    setButton 4 1
    guiButton 4
    guiButton 0
    guiButton 1
    guiButton 2
    guiButton 3
    store (.firstFlag .w1) 1
  | _ => pure ()

def userMain1Up : Code Unit := do
  let b ← load .nowButtonId
  match b with
  | 0 => do
    store .nowButtonId 4
    store .win1PageID 1
    store (.firstFlag .w1) 0
  | 4 => do
    decr .nowButtonId
    store .win1PageID 2
    store (.firstFlag .w1) 0
  | _ => do
    drawNowButton 0
    let b ← load .nowButtonId
    (if b ≥ 1 then decr .nowButtonId else store .nowButtonId 4)
    drawNowButton 1

def userMain1Down : Code Unit := do
  let b ← load .nowButtonId
  match b with
  | 3 => do
    store .win1PageID 1
    store (.firstFlag .w1) 0
    incr .nowButtonId
  | 4 => do
    incr .nowButtonId
    store .win1PageID 0
    store (.firstFlag .w1) 0
  | _ => do
    drawNowButton 0
    incr .nowButtonId
    drawNowButton 1

def userMain1Select : Code Unit := do
  store .win1PageID 0
  let b ← load .nowButtonId
  (match b with
  | 0 => guiWinAdd .w2
  | 1 => guiWinAdd .w4
  | 2 => guiWinAdd .w5
  | 3 => guiWinAdd .w6
  | 4 => guiWinAdd .w7
  | _ => pure ())
  store (.firstFlag .w1) 0

def userMain1WinFun (display : Code Unit) : Code Unit :=
  window .w1 userMain1Draw do
    guiButton 4
    let k ← takeKeys
    let k ← (if k.k2Long = true then do
        store (.firstFlag .w1) 0
        guiWinAdd .w14
        display
        keyStatuses
      else pure k)
    when (k.k0 = true) userMain1Up
    when (k.k1 = true) userMain1Down
    when (k.k2 = true) userMain1Select

/-- Two entries, K0 and K1 both move to the other one. -/
def toggleTwo : Code Unit := do
  let b ← load .nowButtonId
  match b with
  | 0 => do
    store .nowButtonId 1
    setButton 0 0
    setButton 1 1
    guiButton 0
    guiButton 1
  | 1 => do
    store .nowButtonId 0
    setButton 0 1
    setButton 1 0
    guiButton 0
    guiButton 1
  | _ => pure ()

def userMain2WinFun : Code Unit :=
  window .w2
    (do
      store (.firstFlag .w2) 1
      store .nowButtonId 0
      drawButtons [1, 0, 1])
    (do
      let k ← takeKeys
      when (k.k0 = true) toggleTwo
      when (k.k1 = true) toggleTwo
      when (k.k2 = true) do
        let b ← load .nowButtonId
        if b = 0 then do
          store (.firstFlag .w2) 0
          countUp .manual 8
          motoCycle .userMain2WinFun
          guiWinAdd .w3
        else do
          guiWinDeleteTop
          store (.firstFlag .w2) 0)

/-- Back to the main menu, with the LEDs off. -/
def leaveProgress : Code Unit := do
  store (.firstFlag .w3) 0
  guiWinInit
  guiWinAdd .w1
  redOff
  greenOff

/-- `switch(e)` on what `lcd_jump_event` had pending. -/
def showOutcome (e : JumpBits) : Code Unit :=
  if e = .only .tds then
    store .jumpFlag 1
  else if e = .only .stalling then do
    redLight
    store .jumpFlag 1
  else if e = .only .finish then do
    store .jumpFlag 1
    semJump
  else if e = .only .nomoto then do
    redLight
    store .jumpFlag 1
  else if e = .only .exit then do
    leaveProgress
    store .jumpFlag 1
  else pure ()

def userMain3WinFun : Code Unit :=
  window .w3
    (do
      store (.firstFlag .w3) 1
      store .jumpFlag 0)
    (do
      let e ← jumpRecv
      when (e ≠ .empty) (showOutcome e)
      let k ← takeKeys
      let j ← load .jumpFlag
      when (k.k2 = true ∧ j = 1) leaveProgress)

/-! ### The schedule editors -/

def Schedule.win : Schedule → Win
  | .reminder => .w4
  | .automatic => .w5

def Schedule.weekId : Schedule → Nat
  | .reminder => 1
  | .automatic => 4

def Schedule.dayId : Schedule → Nat
  | .reminder => 2
  | .automatic => 5

def Schedule.enableId : Schedule → Nat
  | .reminder => 3
  | .automatic => 6

def scheduleDraw (k : Schedule) : Code Unit := do
  let w ← load (.week k)
  store (.weekTemp k) w
  let d ← load (.day k)
  store (.dayTemp k) d
  let e ← load (.enable k)
  store (.enableTemp k) e
  store (.firstFlag k.win) 1
  drawButton 0 1
  let w ← load (.week k)
  sprintf .weekstring w
  drawButton 1 1
  let d ← load (.day k)
  sprintf .daystring d
  drawButton 2 0
  drawButton 3 0

/-- `if(x--<=0) x=top`. -/
def wrapDown (v : Var) (top : Nat) : Code Unit := do
  let n ← load v
  store v (n + (2 ^ v.width - 1))
  when (n ≤ 0) (store v top)

/-- `if(x++>=top) x=0`. -/
def wrapUp (v : Var) (top : Nat) : Code Unit := do
  let n ← load v
  store v (n + 1)
  when (n ≥ top) (store v 0)

/-- The enable field is drawn for its three values. -/
def drawEnable (k : Schedule) : Code Unit := do
  let e ← load (.enableTemp k)
  when (e ≤ 2) (guiButton 3)

def scheduleUp (k : Schedule) : Code Unit := do
  let n ← load .nowSetting
  match n with
  | 0 => do
    wrapDown (.weekTemp k) 51
    let w ← load (.weekTemp k)
    sprintf .weekstring w
    guiButton 1
  | 1 => do
    wrapDown (.dayTemp k) 6
    let d ← load (.dayTemp k)
    sprintf .daystring d
    guiButton 2
  | 2 => do
    let e ← load (.enableTemp k)
    (if e > 0 then decr (.enableTemp k) else store (.enableTemp k) 2)
    drawEnable k
  | _ => pure ()

def scheduleDown (k : Schedule) : Code Unit := do
  let n ← load .nowSetting
  match n with
  | 0 => do
    wrapUp (.weekTemp k) 51
    let w ← load (.weekTemp k)
    sprintf .weekstring w
    guiButton 1
  | 1 => do
    wrapUp (.dayTemp k) 6
    let d ← load (.dayTemp k)
    sprintf .daystring d
    guiButton 2
  | 2 => do
    let e ← load (.enableTemp k)
    (if e < 2 then incr (.enableTemp k) else store (.enableTemp k) 0)
    drawEnable k
  | _ => pure ()

/-- The save: the three fields are written one by one, the enable last. -/
def scheduleSave (k : Schedule) : Code Unit := do
  store (.firstFlag k.win) 0
  store .nowSetting 0
  let w ← load (.weekTemp k)
  let d ← load (.dayTemp k)
  when (w = 0 ∧ d = 0) (store (.dayTemp k) 1)
  let w ← load (.weekTemp k)
  store (.week k) w
  let w ← load (.weekTemp k)
  flashSet k.weekId w
  let d ← load (.dayTemp k)
  store (.day k) d
  let d ← load (.dayTemp k)
  flashSet k.dayId d
  store (.rtcTime k) 0
  let e ← load (.enableTemp k)
  store (.enable k) e
  let e ← load (.enableTemp k)
  flashSet k.enableId e
  guiWinDeleteTop

def scheduleSelect (display : Code Unit) (k : Schedule) : Code Unit := do
  let e ← load (.enableTemp k)
  if e = 2 then do
    store .nowSetting 0
    guiWinDeleteTop
    display
    store (.firstFlag k.win) 0
  else do
    let n ← load .nowSetting
    match n with
    | 0 => do
      drawButton 1 0
      drawButton 2 1
      drawButton 3 0
      incr .nowSetting
    | 1 => do
      drawButton 1 0
      drawButton 2 0
      drawButton 3 1
      incr .nowSetting
    | 2 => scheduleSave k
    | _ => pure ()

/-- `UserMain4WinFun` and `UserMain5WinFun`. -/
def scheduleWinFun (display : Code Unit) (k : Schedule) : Code Unit :=
  window k.win (scheduleDraw k) do
    let keys ← takeKeys
    when (keys.k0 = true) (scheduleUp k)
    when (keys.k1 = true) (scheduleDown k)
    when (keys.k2 = true) (scheduleSelect display k)

def userMain4WinFun (display : Code Unit) : Code Unit := scheduleWinFun display .reminder
def userMain5WinFun (display : Code Unit) : Code Unit := scheduleWinFun display .automatic

/-! ### Windows with two states and a save -/

/-- The two buttons of a switch: off selected, or on selected. -/
def setSwitch (v : Var) : Code Unit := do
  let n ← load v
  setButton 0 (notFlag n)
  let n ← load v
  setButton 1 n

def userMain6WinFun (display : Code Unit) : Code Unit :=
  window .w6
    (do
      store (.firstFlag .w6) 1
      let n ← load .deltapressEnable
      store .deltapressEnableTemp n
      let n ← load .deltapressEnableTemp
      drawButton 0 (notFlag n)
      let n ← load .deltapressEnableTemp
      drawButton 1 n
      drawButton 3 1)
    (do
      let k ← takeKeys
      let toggle : Code Unit := do
        let n ← load .deltapressEnableTemp
        store .deltapressEnableTemp (notFlag n)
        setSwitch .deltapressEnableTemp
        guiButton 0
        guiButton 1
      when (k.k0 = true) toggle
      when (k.k1 = true) toggle
      when (k.k2 = true) do
        store (.firstFlag .w6) 0
        let n ← load .deltapressEnableTemp
        store .deltapressEnable n
        let n ← load .deltapressEnableTemp
        flashSet 7 n
        guiWinDeleteTop
        display)

def userMain15WinFun (display : Code Unit) : Code Unit :=
  window .w15
    (do
      store (.firstFlag .w15) 1
      let n ← load .settingDeltapress
      store .setDeltaTemp n
      let n ← load .setDeltaTemp
      drawButton 0 (notFlag n)
      let n ← load .setDeltaTemp
      drawButton 1 n
      drawButton 3 1)
    (do
      let k ← takeKeys
      let toggle : Code Unit := do
        let n ← load .setDeltaTemp
        store .setDeltaTemp (notFlag n)
        let n ← load .setDeltaTemp
        drawButton 0 (notFlag n)
        let n ← load .setDeltaTemp
        drawButton 1 n
      when (k.k0 = true) toggle
      when (k.k1 = true) toggle
      when (k.k2 = true) do
        let n ← load .setDeltaTemp
        store .settingDeltapress n
        let n ← load .setDeltaTemp
        flashSet 12 n
        guiWinDeleteTop
        display
        store (.firstFlag .w15) 0)

/-! ### Information menus -/

/-- K0 in a menu of four entries. -/
def menuUp : Code Unit := do
  drawNowButton 0
  let b ← load .nowButtonId
  (if b > 0 then decr .nowButtonId else store .nowButtonId 3)
  drawNowButton 1

/-- K1 in a menu of four entries. -/
def menuDown : Code Unit := do
  drawNowButton 0
  incr .nowButtonId
  let b ← load .nowButtonId
  when (b = 4) (store .nowButtonId 0)
  drawNowButton 1

def userMain7WinFun (display : Code Unit) : Code Unit :=
  window .w7
    (do
      store (.firstFlag .w7) 1
      store .nowButtonId 0
      drawButtons [1, 0, 0, 0, 1])
    (do
      let k ← takeKeys
      when (k.k0 = true) menuUp
      when (k.k1 = true) menuDown
      when (k.k2 = true) do
        let b ← load .nowButtonId
        (match b with
        | 0 => guiWinAdd .w8
        | 1 => guiWinAdd .w12
        | 2 => guiWinAdd .w13
        | 3 => do
          guiWinDeleteTop
          display
        | _ => pure ())
        store (.firstFlag .w7) 0)

def userMain8WinFun : Code Unit :=
  window .w8
    (do
      store (.firstFlag .w8) 1
      store .nowButtonId 0
      drawButtons [1, 0, 0, 0, 1])
    (do
      let k ← takeKeys
      when (k.k0 = true) menuUp
      when (k.k1 = true) menuDown
      when (k.k2 = true) do
        let b ← load .nowButtonId
        (match b with
        | 0 => guiWinAdd .w9
        | 1 => guiWinAdd .w10
        | 2 => guiWinAdd .w11
        | 3 => guiWinDeleteTop
        | _ => pure ())
        store (.firstFlag .w8) 0)

/-- Windows 9 to 12: a counter, `Reset?` and `Back`. -/
def counterWinFun (w : Win) (c : Counter) (id : Nat) (x : Text) : Code Unit :=
  window w
    (do
      store (.firstFlag w) 1
      store .nowButtonId 1
      let n ← load (.counter c)
      sprintf x n
      drawButtons [0, 1, 0, 1])
    (do
      let k ← takeKeys
      when (k.k1 = true) do
        drawNowButton 0
        incr .nowButtonId
        let b ← load .nowButtonId
        when (b = 3) (store .nowButtonId 1)
        drawNowButton 1
      when (k.k2 = true) do
        let b ← load .nowButtonId
        (match b with
        | 1 => do
          store (.counter c) 0
          flashSet id 0
          guiWinDeleteTop
        | 2 => guiWinDeleteTop
        | _ => pure ())
        store (.firstFlag w) 0)

def userMain9WinFun : Code Unit := counterWinFun .w9 .manual 8 .manualString
def userMain10WinFun : Code Unit := counterWinFun .w10 .automatic 9 .automaticString
def userMain11WinFun : Code Unit := counterWinFun .w11 .deltapress 10 .deltaString
def userMain12WinFun : Code Unit := counterWinFun .w12 .error 11 .errorString

/-- Windows 13 and 18: something to read, and `Back`. -/
def infoWinFun (display : Code Unit) (w : Win) (flags : List Nat) : Code Unit :=
  window w
    (do
      store (.firstFlag w) 1
      drawButtons flags)
    (do
      let k ← takeKeys
      when (k.k2 = true) do
        guiWinDeleteTop
        display
        store (.firstFlag w) 0)

def userMain13WinFun (display : Code Unit) : Code Unit := infoWinFun display .w13 [0, 1, 1]
def userMain18WinFun (display : Code Unit) : Code Unit := infoWinFun display .w18 [1]

/-! ### The settings menu -/

/-- Pages 0 to 2 are entered from above, 3 to 5 are the same three from below. -/
def userMain14Draw : Code Unit := do
  let page ← load .win14PageID
  if page ≤ 2 then do
    store .nowButtonId 0
    drawButtons [1, 0, 0, 0, 1]
    store (.firstFlag .w14) 1
  else when (page ≤ 5) do
    store .nowButtonId 2
    drawButtons [0, 0, 1, 0, 1]
    store (.firstFlag .w14) 1

/-- The page K0 leads to from the first entry. -/
def pageAbove : Nat → Option Nat
  | 0 => some 5
  | 1 => some 3
  | 2 => some 4
  | 3 => some 5
  | 4 => some 3
  | 5 => some 4
  | _ => none

/-- The page K1 leads to from the last entry. -/
def pageBelow : Nat → Option Nat
  | 0 => some 1
  | 1 => some 2
  | 2 => some 0
  | 3 => some 1
  | 4 => some 2
  | 5 => some 0
  | _ => none

def storePage (page : Option Nat) : Code Unit :=
  match page with
  | some n => store .win14PageID n
  | none => pure ()

def userMain14Up : Code Unit := do
  let b ← load .nowButtonId
  if b = 0 then do
    let page ← load .win14PageID
    storePage (pageAbove page)
    store (.firstFlag .w14) 0
  else do
    drawNowButton 0
    let b ← load .nowButtonId
    when (b > 0) (decr .nowButtonId)
    drawNowButton 1

def userMain14Down : Code Unit := do
  let b ← load .nowButtonId
  if b = 3 then do
    let page ← load .win14PageID
    storePage (pageBelow page)
    store (.firstFlag .w14) 0
  else do
    drawNowButton 0
    incr .nowButtonId
    drawNowButton 1

/-- What the selected entry of a page does; the third page has only its last two. -/
def userMain14Entry (page b : Nat) : Code Unit :=
  match page % 3, b with
  | 0, 0 => guiWinAdd .w15
  | 0, 1 => guiWinAdd .w16
  | 0, 2 => guiWinAdd .w17
  | 1, 0 => guiWinAdd .w18
  | 1, 1 => guiWinAdd .w19
  | 1, 2 => guiWinAdd .w20
  | 2, 2 => guiWinAdd .w21
  | _, 3 => guiWinDeleteTop
  | _, _ => pure ()

def userMain14Select : Code Unit := do
  store (.firstFlag .w14) 0
  let page ← load .win14PageID
  let b ← load .nowButtonId
  when (page ≤ 5) (userMain14Entry page b)
  store .win14PageID 0
  store .nowButtonId 0

def userMain14WinFun : Code Unit :=
  window .w14 userMain14Draw do
    let k ← takeKeys
    when (k.k0 = true) userMain14Up
    when (k.k1 = true) userMain14Down
    when (k.k2 = true) userMain14Select

/-! ### Numeric editors -/

/-- K0 and K1 between `Save` and `Back`, the entries 1 and 2. -/
def toggleSave : Code Unit := do
  let b ← load .nowButtonId
  match b with
  | 1 => do
    store .nowButtonId 2
    drawButton 1 0
    drawButton 2 1
  | 2 => do
    store .nowButtonId 1
    drawButton 1 1
    drawButton 2 0
  | _ => pure ()

/-- Windows 16 and 17. `first` is what the edited copy `temp` of `setting` starts
with; the text is formatted from the setting itself. -/
def numberWinFun (display : Code Unit) (w : Win) (setting temp : Var) (first : Code Nat) (x : Text)
    (id : Nat) (down up : Code Unit) : Code Unit :=
  window w
    (do
      store (.firstFlag w) 1
      let n ← first
      store temp n
      store .nowButtonId 0
      let n ← load setting
      sprintf x n
      drawButtons [1, 0, 0, 1])
    (do
      let k ← takeKeys
      let edit (change : Code Unit) : Code Unit := do
        let b ← load .nowButtonId
        if b = 0 then do
          change
          let n ← load temp
          sprintf x n
          guiButton 0
        else toggleSave
      when (k.k0 = true) (edit down)
      when (k.k1 = true) (edit up)
      when (k.k2 = true) do
        let b ← load .nowButtonId
        match b with
        | 0 => do
          store .nowButtonId 1
          drawButton 0 0
          drawButton 1 1
        | 1 => do
          let n ← load temp
          store setting n
          let n ← load temp
          flashSet id n
          guiWinDeleteTop
          display
          store (.firstFlag w) 0
        | 2 => do
          guiWinDeleteTop
          display
          store (.firstFlag w) 0
        | _ => pure ())

def userMain16WinFun (display : Code Unit) : Code Unit :=
  numberWinFun display .w16 .settingHardness .setHardnessTemp (pure 100) .hardnessString 13
    (do
      let n ← load .setHardnessTemp
      when (n > 100) (store .setHardnessTemp (n - 10)))
    (do
      let n ← load .setHardnessTemp
      store .setHardnessTemp (n + 10))

def userMain17WinFun (display : Code Unit) : Code Unit :=
  numberWinFun display .w17 .settingBackwashtime .setBackwashTemp (load .settingBackwashtime)
    .backwashString 14
    (do
      let n ← load .setBackwashTemp
      when (n > 30) (store .setBackwashTemp (n - 1)))
    (do
      let n ← load .setBackwashTemp
      when (n < 100) (store .setBackwashTemp (n + 1)))

/-! ### Factory reset, language -/

/-- K0 in window 19 changes the states of buttons 1 and 2 and draws 0 and 1. -/
def userMain19Up : Code Unit := do
  let b ← load .nowButtonId
  match b with
  | 0 => do
    store .nowButtonId 1
    setButton 1 0
    guiButton 0
    setButton 2 1
    guiButton 1
  | 1 => do
    store .nowButtonId 0
    setButton 1 1
    guiButton 0
    setButton 2 0
    guiButton 1
  | _ => pure ()

def userMain19Down : Code Unit := do
  let b ← load .nowButtonId
  match b with
  | 0 => do
    store .nowButtonId 1
    drawButton 0 0
    drawButton 1 1
  | 1 => do
    store .nowButtonId 0
    drawButton 0 1
    drawButton 1 0
  | _ => pure ()

def userMain19WinFun (display : Code Unit) : Code Unit :=
  window .w19
    (do
      store (.firstFlag .w19) 1
      store .nowButtonId 0
      drawButtons [1, 0, 1])
    (do
      let k ← takeKeys
      when (k.k0 = true) userMain19Up
      when (k.k1 = true) userMain19Down
      when (k.k2 = true) do
        let b ← load .nowButtonId
        match b with
        | 0 => do
          flashFactory
          cpuReset
        | 1 => do
          guiWinDeleteTop
          display
          store (.firstFlag .w19) 0
        | _ => pure ())

/-- A choice of window 20: what it selects is stored at once. -/
def saveLanguage (n : Nat) : Code Unit := do
  store .settingLanguage n
  let n ← load .settingLanguage
  flashSet 15 n
  guiWinDeleteTop
  store (.firstFlag .w20) 0

def userMain20WinFun : Code Unit :=
  window .w20
    (do
      store (.firstFlag .w20) 1
      store .nowButtonId 0
      let n ← load .settingLanguage
      store .setLanguageTemp n
      drawButtons [1, 0, 0, 1])
    (do
      let k ← takeKeys
      when (k.k0 = true) do
        drawNowButton 0
        incr .nowButtonId
        let b ← load .nowButtonId
        when (b = 3) (store .nowButtonId 0)
        drawNowButton 1
      when (k.k1 = true) do
        drawNowButton 0
        let b ← load .nowButtonId
        (if b > 0 then decr .nowButtonId else store .nowButtonId 2)
        drawNowButton 1
      when (k.k2 = true) do
        let b ← load .nowButtonId
        match b with
        | 0 => saveLanguage 0
        | 1 => saveLanguage 1
        | 2 => do
          guiWinDeleteTop
          store (.firstFlag .w20) 0
        | _ => pure ())

/-! ### The sensor windows -/

/-- `Tds_Password`. -/
def tdsPassword : Nat := 3

def userMain21WinFun : Code Unit :=
  window .w21
    (do
      store (.firstFlag .w21) 1
      store .tdsPasswordTemp 0
      store .nowWinid 21
      let n ← load .tdsPasswordTemp
      sprintf .tdsPasswordString n
      drawButton 3 1)
    (do
      let k ← takeKeys
      when (k.k0 = true) do
        let n ← load .tdsPasswordTemp
        when (n > 0) (decr .tdsPasswordTemp)
        let n ← load .tdsPasswordTemp
        sprintf .tdsPasswordString n
      when (k.k1 = true) do
        incr .tdsPasswordTemp
        let n ← load .tdsPasswordTemp
        sprintf .tdsPasswordString n
      when (k.k2 = true) do
        let n ← load .tdsPasswordTemp
        (if n = tdsPassword then guiWinAdd .w23 else guiWinDeleteTop)
        store (.firstFlag .w21) 0)

def userMain22WinFun : Code Unit :=
  window .w22
    (do
      store (.firstFlag .w22) 1
      store .nowButtonId 0
      drawButton 0 1
      drawButton 3 1)
    (do
      let k ← takeKeys
      when (k.k0 = true) do
        guiWinDeleteTop
        store (.firstFlag .w22) 0
      when (k.k2 = true) do
        store (.firstFlag .w22) 0
        let b ← load .nowButtonId
        when (b = 0) (guiWinAdd .w23))

def userMain23WinFun : Code Unit :=
  window .w23
    (do
      store (.firstFlag .w23) 1
      store .nowWinid 23
      sprintf .currentTds23 0
      drawButton 3 1)
    (do
      let v ← tdsWork
      sprintf .currentTds23 v
      mdelay 1000
      let k ← takeKeys
      when (k.k2 = true) do
        guiWinDeleteTop
        guiWinDeleteTop
        store (.firstFlag .w23) 0)

def userMain24WinFun (display : Code Unit) : Code Unit :=
  window .w24
    (do
      store (.firstFlag .w24) 1
      store .nowWinid 24
      store .tdsValueOffsetTemp 0
      sprintf .currentTds24 0
      drawButton 3 1)
    (do
      let k ← takeKeys
      let leave : Code Unit := do
        guiWinDeleteTop
        display
        store (.firstFlag .w24) 0
      when (k.k0 = true) leave
      when (k.k1 = true) do
        let n ← load .tdsValueOffsetTemp
        store .tdsValueOffsetTemp (n + 100)
        let n ← load .tdsValueOffsetTemp
        sprintf .currentTds24 n
      when (k.k2 = true) leave)

/-! ### Requests and alerts -/

def userMain25WinFun (display : Code Unit) : Code Unit :=
  window .w25
    (do
      store (.firstFlag .w25) 1
      store .nowWinid 25
      drawButton 3 1)
    (do
      let k ← takeKeys
      when (k.k0 = true) do
        store (.firstFlag .w25) 0
        guiWinInit
        guiWinAdd .w1
        display
      when (k.k2 = true) jumptoAutomatic)

/-- Windows 26 and 27. -/
def alertWinFun (w : Win) : Code Unit :=
  window w
    (do
      store (.firstFlag w) 1
      drawButton 0 1)
    (do
      let k ← takeKeys
      when (k.k2 = true) do
        guiWinDeleteTop
        store (.firstFlag w) 0)

def userMain26WinFun : Code Unit := alertWinFun .w26
def userMain27WinFun : Code Unit := alertWinFun .w27

/-! ### Dispatch -/

/-- `pThis->WindowFunction(pThis->param)`. -/
def winFun (display : Code Unit) : Win → Code Unit
  | .w1 => userMain1WinFun display
  | .w2 => userMain2WinFun
  | .w3 => userMain3WinFun
  | .w4 => userMain4WinFun display
  | .w5 => userMain5WinFun display
  | .w6 => userMain6WinFun display
  | .w7 => userMain7WinFun display
  | .w8 => userMain8WinFun
  | .w9 => userMain9WinFun
  | .w10 => userMain10WinFun
  | .w11 => userMain11WinFun
  | .w12 => userMain12WinFun
  | .w13 => userMain13WinFun display
  | .w14 => userMain14WinFun
  | .w15 => userMain15WinFun display
  | .w16 => userMain16WinFun display
  | .w17 => userMain17WinFun display
  | .w18 => userMain18WinFun display
  | .w19 => userMain19WinFun display
  | .w20 => userMain20WinFun
  | .w21 => userMain21WinFun
  | .w22 => userMain22WinFun
  | .w23 => userMain23WinFun
  | .w24 => userMain24WinFun display
  | .w25 => userMain25WinFun display
  | .w26 => userMain26WinFun
  | .w27 => userMain27WinFun

/-- `GuiWinDisplay`, nested at most `depth` deep. The stack never holds more than
sixteen windows; an empty stack dispatches nothing. -/
def guiWinDisplay : Nat → Code Unit
  | 0 => pure ()
  | depth + 1 => do
    let top ← guiTop
    match top with
    | none => pure ()
    | some w => do
      mark (.winFun w)
      winFun (guiWinDisplay depth) w

end Backwash.Firmware
