import Backwash.Concurrent.Sight
import Backwash.Firmware.Obligations

/-! The window stack as the display thread sees it.

The stack, the `FirstFlag`s, the selected entry and the buttons are written by the
display thread alone, with one exception: after a wake-up by a key the timer
thread runs `JumptoMainWin`, which clears the flags and resets the stack. A
property of these is proved by running the display thread over its view of them,
as long as `JumptoMainWin` falls between two of its passes. -/
namespace Backwash.Lcd
open Concurrent Prog Protocol Firmware

/-! ### The view -/

/-- The windows, top first, their `FirstFlag`s, and which keys had a token when the
display thread last asked. -/
structure Stack where
  wins : List Win
  flag : Win → Nat
  took : Sem → Bool

namespace Stack

def push (a : Stack) (w : Win) : Stack :=
  {a with wins := if a.wins.length ≥ guiWinManageNum then a.wins else w :: a.wins}

def pop (a : Stack) : Stack := {a with wins := if a.wins.length ≤ 1 then a.wins else a.wins.tail}

def set (a : Stack) (w : Win) (n : Nat) : Stack := {a with flag := Function.update a.flag w n}

/-- `memset(FirstFlag, 0, 27)` does not reach window 27. -/
def wipe (a : Stack) : Stack := {a with flag := fun w => if w = .w27 then a.flag .w27 else 0}

def take (a : Stack) (k : Sem) (b : Bool) : Stack :=
  if k = .rtcCheck then a else {a with took := Function.update a.took k b}

def after : (o : Op) → Res o → Stack → Stack
  | .store v n, _, a => match v with
    | .firstFlag w => a.set w (n % 2 ^ 8)
    | _ => a
  | .semTake k, b, a => a.take k b
  | .guiWinInit, _, a => {a with wins := []}
  | .guiWinAdd w, _, a => a.push w
  | .guiWinDeleteTop, _, a => a.pop
  | .memsetFirstFlag, _, a => a.wipe
  | _, _, a => a

/-- The answers an operation can have. -/
def can : (o : Op) → Stack → Res o → Prop
  | .load v, a, n => match v with
    | .firstFlag w => n = a.flag w
    | _ => True
  | .keyStatus k, a, b => k ≠ .rtcCheck → b = a.took k
  | .guiTop, a, w => w = a.wins.head?
  | _, _, _ => True

end Stack

/-- The stack, with what the windows share: the page of the main menu, the selected
entry, the edited field and the buttons. -/
@[ext] structure Screen extends Stack where
  page : Nat
  now : Nat
  setting : Nat
  button : Nat → Nat
  shown : Nat → Nat

def screen (s : Device) : Screen where
  wins := s.wins
  flag := fun w => s.vars (.firstFlag w)
  took := fun k => k != .rtcCheck && (s.taken k).isSome
  page := s.vars .win1PageID
  now := s.vars .nowButtonId
  setting := s.vars .nowSetting
  button := s.button
  shown := s.shown

namespace Screen

def after (o : Op) (r : Res o) (x : Screen) : Screen where
  toStack := x.toStack.after o r
  page := match o with
    | .store .win1PageID n => n % 2 ^ 8
    | _ => x.page
  now := match o with
    | .store .nowButtonId n => n % 2 ^ 8
    | _ => x.now
  setting := match o with
    | .store .nowSetting n => n % 2 ^ 8
    | _ => x.setting
  button := match o with
    | .setButton i n => if i < 5 then Function.update x.button i n else x.button
    | _ => x.button
  shown := match o with
    | .guiButton i => Function.update x.shown i (x.button i)
    | _ => x.shown

def can : (o : Op) → Screen → Res o → Prop
  | .load v, x, n => match v with
    | .firstFlag w => n = x.flag w
    | .win1PageID => n = x.page
    | .nowButtonId => n = x.now
    | .nowSetting => n = x.setting
    | _ => True
  | .keyStatus k, x, b => k ≠ .rtcCheck → b = x.took k
  | .guiTop, x, w => w = x.wins.head?
  | _, _, _ => True

theorem stack_can {o : Op} {r : Res o} {x : Screen} (h : can o x r) : x.toStack.can o r := by
  cases o with
  | load v => cases v <;> first | exact h | trivial
  | keyStatus k => exact h
  | guiTop => exact h
  | _ => trivial

end Screen

section
variable {t : Thread} {o : Op} {i : Input} {s : Device}

theorem screen_can : Screen.can o (screen s) (exec t o i s).2 := by
  cases o with
  | load v => cases v <;> first | rfl | trivial
  | keyStatus k => cases k <;> first | exact fun _ => rfl | exact fun h => absurd rfl h
  | guiTop => rfl
  | _ => trivial

theorem screen_store (v : Var) (n : Nat) : screen (s.store v n) = (screen s).after (.store v n) () := by
  cases v with
  | firstFlag w =>
    refine Screen.ext rfl (funext fun u => ?_) rfl rfl rfl rfl rfl rfl
    by_cases hu : u = w
    · subst hu
      simp [screen, Screen.after, Stack.after, Stack.set, Device.store, Var.width]
    · simp [screen, Screen.after, Stack.after, Stack.set, Device.store, hu]
  | _ =>
    refine Screen.ext rfl ?_ rfl ?_ ?_ ?_ rfl rfl <;>
      simp [screen, Screen.after, Device.store, Var.width, Stack.after]

theorem screen_semTake (k : Sem) :
    screen (exec t (.semTake k) i s).1 = (screen s).after (.semTake k) (exec t (.semTake k) i s).2 := by
  by_cases hk : k = .rtcCheck
  · subst hk
    refine Screen.ext rfl rfl (funext fun j => ?_) rfl rfl rfl rfl rfl
    cases j <;> simp [screen, exec, Screen.after, Stack.after, Stack.take]
  · refine Screen.ext ?_ ?_ (funext fun j => ?_) rfl rfl rfl rfl rfl
    · simp [screen, exec, Screen.after, Stack.after, Stack.take, hk]
    · simp [screen, exec, Screen.after, Stack.after, Stack.take, hk]
    · by_cases hj : j = k
      · subst hj
        cases hsem : s.sem j <;> simp [screen, exec, Screen.after, Stack.after, Stack.take, hk, hsem]
      · simp [screen, exec, Screen.after, Stack.after, Stack.take, hk, hj]

/-- An operation does to the view what it does to the device. -/
theorem screen_exec : screen (exec t o i s).1 = (screen s).after o (exec t o i s).2 := by
  cases o with
  | store v n => exact screen_store v n
  | semTake k => exact screen_semTake k
  | memsetFirstFlag =>
    refine Screen.ext rfl (funext fun w => ?_) rfl rfl rfl rfl rfl rfl
    cases w <;> rfl
  | stop2 =>
    simp only [exec]
    split
    · exact screen_store .buttonWakeupFlag 1
    · rfl
  | _ => rfl

theorem stack_exec : (screen (exec t o i s).1).toStack = (screen s).toStack.after o (exec t o i s).2 := by
  rw [screen_exec]
  rfl

/-- The operation leaves the view alone. -/
def inert : Op → Bool
  | .store v _ => match v with
    | .firstFlag _ | .win1PageID | .nowButtonId | .nowSetting => false
    | _ => true
  | .semTake k => k == .rtcCheck
  | .guiWinInit | .guiWinAdd _ | .guiWinDeleteTop | .memsetFirstFlag | .setButton _ _ | .guiButton _ => false
  | _ => true

theorem Screen.after_inert (h : inert o = true) (r : Res o) (x : Screen) : x.after o r = x := by
  cases o with
  | store v n => cases v <;> first | rfl | cases h
  | semTake k => cases k <;> first | rfl | cases h
  | guiWinInit => cases h
  | guiWinAdd w => cases h
  | guiWinDeleteTop => cases h
  | memsetFirstFlag => cases h
  | setButton j n => cases h
  | guiButton j => cases h
  | _ => rfl

/-- The operations of `JumptoMainWin`. -/
def homing : Op → Bool
  | .memsetFirstFlag | .guiWinInit | .guiWinAdd _ => true
  | _ => false

theorem inert_other (ht : t ≠ .lcd) (hmay : may t o = true) (hh : homing o = false) : inert o = true := by
  cases o with
  | store v n => cases v <;> first | rfl | (cases t <;> first | exact absurd rfl ht | cases hmay)
  | semTake k => cases k <;> first | rfl | (cases t <;> first | exact absurd rfl ht | cases hmay)
  | guiWinDeleteTop => cases t <;> first | exact absurd rfl ht | cases hmay
  | setButton j n => cases t <;> first | exact absurd rfl ht | cases hmay
  | guiButton j => cases t <;> first | exact absurd rfl ht | cases hmay
  | guiWinInit => cases hh
  | guiWinAdd w => cases hh
  | memsetFirstFlag => cases hh
  | _ => rfl

/-- Only `JumptoMainWin` reaches the view from another thread. -/
theorem screen_other (ht : t ≠ .lcd) (hmay : may t o = true) (hh : homing o = false) :
    screen (exec t o i s).1 = screen s := by
  rw [screen_exec, Screen.after_inert (inert_other ht hmay hh)]

theorem screen_enter (c : Call) (s : Device) : screen (enter c s) = screen s :=
  enter_keep (f := screen) (fun _ _ _ => rfl) (fun _ _ => rfl) (fun _ _ => rfl)
    (fun o s ho => screen_other (by decide) ho (by
      rcases irq_cases ho with ⟨_, rfl⟩ | ⟨_, rfl⟩ | ⟨_, _, rfl⟩ | ⟨_, rfl⟩ | rfl <;> rfl)) s

/-- The main menu, nothing drawn. -/
def Screen.blank : Screen := ⟨⟨[.w1], fun _ => 0, fun _ => false⟩, 0, 0, 0, fun _ => 0, fun _ => 0⟩

theorem screen_boot (flash : Nat → Nat) : screen (boot flash) = .blank := by
  have hboot : screen (boot flash) = screen (powerOn flash) := by
    refine boot_keep (f := screen) (fun o s ho => ?_) flash
    rw [screen_exec, Screen.after_inert]
    cases o with
    | store v n => cases v <;> first | rfl | cases ho
    | _ => first | rfl | cases ho
  rw [hboot]
  refine Screen.ext rfl rfl (funext fun k => ?_) rfl rfl rfl rfl rfl
  simp [screen, powerOn, Screen.blank]

end

/-! ### Passes and wake-ups -/

/-- A pass of the display thread, up to its delay. -/
def passBody (depth : Nat) : Code Unit := do
  guiWinDisplay depth
  deltaPressWork
  serve .jumptoReminderFlag do
    lcdtoReminder
    openLcdDisplay
    screenTimerRefresh
  serve .jumptoAutomaticFlag do
    lcdtoBackwash
    openLcdDisplay
  serve .jumpToBatteryEmptyFlag (pushAlert .w26)
  serve .jumpToBatteryNewFlag (pushAlert .w27)

theorem lcdTaskEntry_eq (depth : Nat) : lcdTaskEntry depth = passBody depth >>= fun _ => mdelay 10 := by
  simp only [passBody, lcdTaskEntry, Prog.bind_assoc]

/-- The display thread runs nothing but `lcd_task_entry`. -/
def passCalls : Call → Bool
  | .motoCycle _ | .scheduleSave _ => false
  | _ => true

/-- `JumptoMainWin` falls between two passes of the display thread. -/
def JumpRule (cfg : Conf) : Act → Prop
  | .step t _ => t = .timer ∧ (cfg.head t).any homing = true → (cfg.task .lcd).isNone = true
  | .start t _ =>
    t = .lcd → lastOp .timer cfg.trace ≠ some .memsetFirstFlag ∧ lastOp .timer cfg.trace ≠ some .guiWinInit

instance (cfg : Conf) : ∀ a, Decidable (JumpRule cfg a)
  | .step _ _ => inferInstanceAs (Decidable (_ → _))
  | .start _ _ => inferInstanceAs (Decidable (_ → _))

/-- A property of the windows: how the display thread's operations act on a view,
the rule, and what holds between two passes and inside `JumptoMainWin`, after its
`memset` and after its `GuiWinInit`. -/
structure Pane (X : Type) extends Sight Res X where
  view : Device → Trace → X
  Extra : Conf → Act → Prop
  Rest : X → Prop
  Wiped : X → Prop
  Emptied : X → Prop
  view_can : ∀ {cfg : Conf} {i : Input} {o : Op}, Extra cfg (.step .lcd i) → cfg.head .lcd = some o →
    can o (view cfg.state cfg.trace) (exec .lcd o i cfg.state).2
  view_after : ∀ {o : Op} (i : Input) (s : Device) (tr : Trace),
    view (exec .lcd o i s).1 (.did .lcd o i :: tr) = after o (exec .lcd o i s).2 (view s tr)
  view_other : ∀ {t : Thread} {o : Op} (i : Input) (s : Device) (tr : Trace), t ≠ .lcd → may t o = true →
    homing o = false → view (exec t o i s).1 (.did t o i :: tr) = view s tr
  view_began : ∀ (t : Thread) (c : Call) (s : Device) (tr : Trace), view (enter c s) (.began t c :: tr) = view s tr
  delay : ∀ {x : X}, Rest x → Safe (after (.mdelay 10) () x) ∧ Rest (after (.mdelay 10) () x)
  wipe : ∀ {cfg : Conf} (i : Input), Extra cfg (.step .timer i) → cfg.head .timer = some .memsetFirstFlag →
    Rest (view cfg.state cfg.trace) →
    Safe (view (exec .timer .memsetFirstFlag i cfg.state).1 (.did .timer .memsetFirstFlag i :: cfg.trace)) ∧
    Wiped (view (exec .timer .memsetFirstFlag i cfg.state).1 (.did .timer .memsetFirstFlag i :: cfg.trace))
  empty : ∀ (i : Input) (s : Device) (tr : Trace), Wiped (view s tr) →
    Safe (view (exec .timer .guiWinInit i s).1 (.did .timer .guiWinInit i :: tr)) ∧
    Emptied (view (exec .timer .guiWinInit i s).1 (.did .timer .guiWinInit i :: tr))
  home : ∀ (i : Input) (s : Device) (tr : Trace), Emptied (view s tr) →
    Safe (view (exec .timer (.guiWinAdd .w1) i s).1 (.did .timer (.guiWinAdd .w1) i :: tr)) ∧
    Rest (view (exec .timer (.guiWinAdd .w1) i s).1 (.did .timer (.guiWinAdd .w1) i :: tr))

/-! ### The threads -/

/-- The display thread is between two passes or in one, with the view it has; the
timer thread may be inside `JumptoMainWin`. -/
inductive Seat (X : Type) where
  | rest | held (x : X) | wiped | emptied

namespace Pane
variable {X : Type} (N : Pane X) {depth : Nat}

/-- What the view satisfies, from where the two threads are and from the last
operation of the timer thread. -/
def Settled (lcd timer : Seat X) (x : X) (last : Option Op) : Prop :=
  match lcd, timer with
  | .held y, .rest => x = y
  | .rest, .rest => N.Rest x
  | .rest, .wiped => N.Wiped x ∧ last = some .memsetFirstFlag
  | .rest, .emptied => N.Emptied x ∧ last = some .guiWinInit
  | _, _ => False

def protocol (depth : Nat) : Protocol (board passCalls depth) (Seat X) where
  Rule := fun cfg a => JumpRule cfg a ∧ N.Extra cfg a
  Inv := fun gs s tr => N.Safe (N.view s tr) ∧ N.Settled (gs .lcd) (gs .timer) (N.view s tr) (lastOp .timer tr)
  At := fun t c g => g = .rest ∨ (c ≠ none ∧ (t = .lcd ∨ t = .timer))

variable {N}

theorem at_busy {t : Thread} (ht : t = .lcd ∨ t = .timer) (c : Call) (g : Seat X) : (N.protocol depth).At t (some c) g :=
  .inr ⟨Option.some_ne_none c, ht⟩

theorem at_idle {t : Thread} {g : Seat X} (h : (N.protocol depth).At t none g) : g = .rest :=
  h.resolve_right fun e => e.1 rfl

theorem lcd_rest {gs : Thread → Seat X} {cfg : Conf} (hold : (N.protocol depth).Holds gs cfg)
    (h : (cfg.task .lcd).isNone = true) : gs .lcd = .rest := by
  have hat := hold.2 .lcd
  rw [show cfg.call .lcd = none by simpa [Config.call] using h] at hat
  exact at_idle hat

/-- Threads that have nothing to do with the windows. -/
theorem other_keeps {t : Thread} {c : Call} {o : Op} (hl : t ≠ .lcd) (ht : t ≠ .timer) (hmay : may t o = true) :
    (N.protocol depth).Keeps t c .rest o := by
  intro cfg gs i _ _ _ hold _
  have hh : homing o = false := by
    cases o <;> first | rfl | (cases t <;> first | exact absurd rfl hl | exact absurd rfl ht | cases hmay)
  show N.Safe (N.view (exec t o i cfg.state).1 _) ∧ N.Settled _ _ (N.view (exec t o i cfg.state).1 _) _
  rw [N.view_other i cfg.state cfg.trace hl hmay hh, lastOp_did_of_ne ht]
  exact hold.1

/-! The timer thread. -/

section
variable {c : Call}

theorem timer_quiet {α : Type} {p : Code α} (hp : p.All fun o => may .timer o = true ∧ homing o = false) :
    (N.protocol depth).Outline .timer c p .rest fun _ g => g = .rest := by
  refine Outline.keep (.inl rfl) (hp.mono fun o ho cfg gs i _ _ hg hold _ => ?_) fun _ => rfl
  have hinv : N.Settled (gs .lcd) (gs .timer) (N.view cfg.state cfg.trace) (lastOp .timer cfg.trace) := hold.1.2
  show N.Safe (N.view (exec .timer o i cfg.state).1 _) ∧ N.Settled _ _ (N.view (exec .timer o i cfg.state).1 _) _
  rw [N.view_other i cfg.state cfg.trace (by decide) ho.1 ho.2]
  refine ⟨hold.1.1, ?_⟩
  rw [hg] at hinv ⊢
  cases hl : gs .lcd <;> rw [hl] at hinv <;> exact hinv

/-- A step inside `JumptoMainWin` finds the display thread between two passes. -/
theorem timer_home {o : Op} {g m : Seat X} (ho : homing o = true) (hat : (N.protocol depth).At .timer (some c) m)
    (h : ∀ (cfg : Conf) (i : Input), N.Extra cfg (.step .timer i) → cfg.head .timer = some o →
      N.Settled .rest g (N.view cfg.state cfg.trace) (lastOp .timer cfg.trace) →
      N.Safe (N.view (exec .timer o i cfg.state).1 (.did .timer o i :: cfg.trace)) ∧
      N.Settled .rest m (N.view (exec .timer o i cfg.state).1 (.did .timer o i :: cfg.trace)) (some o)) :
    (N.protocol depth).Outline .timer c (Prog.perform o) g fun _ g' => g' = m := by
  refine Outline.move hat (fun cfg gs i _ hhead hg hold hr => ?_) fun _ => rfl
  have hl : gs .lcd = .rest := lcd_rest hold (hr.1 ⟨rfl, by rw [hhead]; exact ho⟩)
  have hinv : N.Settled (gs .lcd) (gs .timer) (N.view cfg.state cfg.trace) (lastOp .timer cfg.trace) := hold.1.2
  rw [hl, hg] at hinv
  obtain ⟨hsafe, hset⟩ := h cfg i hr.2 hhead hinv
  refine ⟨hsafe, ?_⟩
  show N.Settled (gs .lcd) m _ _
  rw [hl]
  exact hset

theorem timer_jumptoMainWin : (N.protocol depth).Outline .timer c jumptoMainWin .rest fun _ g => g = .rest := by
  have hmem : (N.protocol depth).Outline .timer c memsetFirstFlag .rest fun _ g => g = .wiped :=
    timer_home rfl (at_busy (.inr rfl) _ _) fun cfg i hx hhead hrest =>
      (N.wipe i hx hhead hrest).imp_right fun hw => ⟨hw, rfl⟩
  have hinit : (N.protocol depth).Outline .timer c guiWinInit .wiped fun _ g => g = .emptied :=
    timer_home rfl (at_busy (.inr rfl) _ _) fun cfg i _ _ hwiped =>
      (N.empty i _ _ hwiped.1).imp_right fun he => ⟨he, rfl⟩
  have hadd : (N.protocol depth).Outline .timer c (guiWinAdd .w1) .emptied fun _ g => g = .rest :=
    timer_home rfl (.inl rfl) fun cfg i _ _ hemptied => N.home i _ _ hemptied.1
  exact hmem.seq fun _ => hinit.seq fun _ => hadd

theorem timer_enterLowPower : (N.protocol depth).Outline .timer c enterLowPower .rest fun _ g => g = .rest := by
  refine (timer_quiet (All.perform ⟨rfl, rfl⟩)).seq fun _ => Outline.seq (m := .rest) (timer_quiet ?_) fun _ => ?_
  · refine built_beforSleep (All.compositional _) (fun p b hp => All.perform ⟨?_, rfl⟩) (All.perform ⟨rfl, rfl⟩)
    cases p <;> first | rfl | exact hp
  refine (timer_quiet (All.perform ⟨rfl, rfl⟩)).seq fun _ => (timer_quiet (All.perform ⟨rfl, rfl⟩)).seq fun _ =>
    (timer_quiet (All.perform ⟨rfl, rfl⟩)).seq fun (woken : Nat) => Outline.seq (m := .rest) (timer_quiet ?_) fun _ =>
      Outline.when (fun _ => timer_jumptoMainWin) fun _ => rfl
  refine built_afterWake (All.compositional _) fun p b hp _ => All.perform ⟨?_, rfl⟩
  cases p <;> first | rfl | exact hp

theorem timer_outline (hc : c.thread = .timer) :
    (N.protocol depth).Outline .timer c (body depth c) .rest fun _ g => g = .rest := by
  cases c with
  | expire x =>
    cases x with
    | motoCycle =>
      exact timer_quiet (all_motoCycleTimerCallback ⟨rfl, rfl⟩ ⟨rfl, rfl⟩ ⟨rfl, rfl⟩ (by rintro x (rfl | rfl) <;> exact ⟨rfl, rfl⟩)
        (all_countUp ⟨rfl, rfl⟩ (fun _ => ⟨rfl, rfl⟩) fun _ => all_flashSet ⟨rfl, rfl⟩ ⟨rfl, rfl⟩ ⟨rfl, rfl⟩) ⟨rfl, rfl⟩)
    | screenBacklight =>
      exact timer_quiet (All.bind (All.perform ⟨rfl, rfl⟩) fun _ => All.bind (All.perform ⟨rfl, rfl⟩) fun _ =>
        All.perform (o := Op.pinWrite .lcdBl false) ⟨rfl, rfl⟩)
    | screenVcc => exact (timer_quiet (All.perform ⟨rfl, rfl⟩)).seq fun _ => timer_enterLowPower
    | lowPower => exact timer_enterLowPower
  | expireSemJump => exact timer_quiet (All.perform (o := Op.semRelease .k2) ⟨rfl, rfl⟩)
  | enterLowPower => exact timer_enterLowPower
  | _ => cases hc

end

/-! The display thread. -/

theorem lcd_outline {α : Type} {p : Code α} (hp : Keeps .lcd p) {x : X} {Q : α → X → Prop} (h : N.Run p x Q) :
    (N.protocol depth).Outline .lcd .lcdTask p (.held x) fun a g => ∃ y, g = .held y ∧ Q a y := by
  refine Sight.Run.outline (K := fun o => may .lcd o = true) (fun o x cfg gs i _ _ hhead hg hold hr => ?_) hp h
  have hinv : N.Settled (gs .lcd) (gs .timer) (N.view cfg.state cfg.trace) (lastOp .timer cfg.trace) := hold.1.2
  rw [hg] at hinv
  cases ht : gs .timer with
  | rest =>
    rw [ht] at hinv
    obtain rfl : N.view cfg.state cfg.trace = x := hinv
    refine ⟨N.view_can hr.2 hhead, fun hsafe => ⟨at_busy (.inl rfl) _ _, ?_, ?_⟩⟩
    · rw [show (board passCalls depth).exec = exec from rfl, N.view_after i]
      exact hsafe
    · rw [show (board passCalls depth).exec = exec from rfl, N.view_after i]
      show N.Settled (.held _) (gs .timer) _ _
      rw [ht]
      rfl
  | _ => rw [ht] at hinv; exact hinv.elim

/-- A pass takes the view and gives it back with the delay at its end. -/
theorem lcd_pass {x : X} (h : N.Run (passBody depth) x fun _ y => N.Rest y) :
    (N.protocol depth).Outline .lcd .lcdTask (lcdTaskEntry depth) (.held x) fun _ g => g = .rest := by
  have hkeeps : Keeps .lcd (passBody depth) := All.of_bind (lcdTaskEntry_eq depth ▸ keeps_lcdTaskEntry depth)
  rw [lcdTaskEntry_eq]
  refine (lcd_outline hkeeps h).bind fun _ g hg => ?_
  obtain ⟨y, rfl, hy⟩ := hg
  refine Outline.move (m := .rest) (.inl rfl) (fun cfg gs i _ hhead hg hold hr => ?_) fun _ => rfl
  have hinv : N.Settled (gs .lcd) (gs .timer) (N.view cfg.state cfg.trace) (lastOp .timer cfg.trace) := hold.1.2
  rw [hg] at hinv
  cases ht : gs .timer with
  | rest =>
    rw [ht] at hinv
    obtain rfl : N.view cfg.state cfg.trace = y := hinv
    show N.Safe (N.view (exec .lcd (.mdelay 10) i cfg.state).1 _) ∧
      N.Settled .rest (gs .timer) (N.view (exec .lcd (.mdelay 10) i cfg.state).1 _) _
    rw [N.view_after i, ht]
    exact N.delay hy
  | _ => rw [ht] at hinv; exact hinv.elim

theorem begins (hpass : ∀ x, N.Rest x → N.Safe x → N.Run (passBody depth) x fun _ y => N.Rest y) (c : Call)
    (hc : passCalls c = true) : (N.protocol depth).Begins c.thread c := by
  have henter : ∀ cfg gs, (N.protocol depth).Holds gs cfg → c.thread ≠ .timer →
      (N.protocol depth).Inv gs (enter c cfg.state) (.began c.thread c :: cfg.trace) := by
    intro cfg gs hold ht
    show N.Safe (N.view (enter c cfg.state) _) ∧ N.Settled _ _ (N.view (enter c cfg.state) _) _
    rw [N.view_began, lastOp_began_of_ne ht]
    exact hold.1
  by_cases hl : c.thread = .lcd
  · obtain rfl : c = .lcdTask := by
      cases c with
      | lcdTask => rfl
      | motoCycle caller => cases hc
      | scheduleSave k => cases hc
      | _ => cases hl
    intro cfg gs hnone _ hold hr
    have hnone' : cfg.task .lcd = none := hnone
    have hinv : N.Settled (gs .lcd) (gs .timer) (N.view cfg.state cfg.trace) (lastOp .timer cfg.trace) := hold.1.2
    have hlcd : gs .lcd = .rest := lcd_rest hold (by rw [hnone']; rfl)
    have hlast := hr.1 rfl
    rw [hlcd] at hinv
    cases ht : gs .timer with
    | rest =>
      rw [ht] at hinv
      refine ⟨.held (N.view cfg.state cfg.trace), at_busy (.inl rfl) _ _, ⟨(henter cfg gs hold (by decide)).1, ?_⟩, ?_⟩
      · show N.Settled (.held _) (gs .timer) (N.view (enter .lcdTask cfg.state) _) _
        rw [ht, N.view_began]
        rfl
      · exact (lcd_pass (hpass _ hinv hold.1.1)).mono fun _ _ e => .inl e
    | wiped => rw [ht] at hinv; exact absurd hinv.2 hlast.1
    | emptied => rw [ht] at hinv; exact absurd hinv.2 hlast.2
    | held y => rw [ht] at hinv; exact hinv.elim
  by_cases ht : c.thread = .timer
  · refine begins_outline (g := .rest) (fun _ => at_idle) (.inl rfl) (fun cfg gs hold _ hg _ => ?_) ?_
    · have hinv : N.Settled (gs .lcd) (gs .timer) (N.view cfg.state cfg.trace) (lastOp .timer cfg.trace) := hold.1.2
      show N.Safe (N.view (enter c cfg.state) _) ∧ N.Settled _ _ (N.view (enter c cfg.state) _) _
      rw [ht] at hg
      rw [N.view_began, hg]
      refine ⟨hold.1.1, ?_⟩
      rw [hg] at hinv
      cases hl : gs .lcd <;> rw [hl] at hinv <;> exact hinv
    · rw [ht]
      exact (timer_outline ht).mono fun _ _ e => .inl e
  · exact begins_quiet (fun _ => at_idle) (fun _ => .inl rfl) (fun cfg gs hold _ _ _ => henter cfg gs hold ht)
      fun o ho => other_keeps hl ht ho

/-- In a run that keeps to the rule every view is safe, and between two passes it is
at rest or inside `JumptoMainWin`. -/
theorem run_settled (hpass : ∀ x, N.Rest x → N.Safe x → N.Run (passBody depth) x fun _ y => N.Rest y)
    {flash : Nat → Nat} (hrest : N.Rest (N.view (boot flash) [])) (hsafe : N.Safe (N.view (boot flash) []))
    {as : List Act} (h : (board passCalls depth).Admits (fun cfg a => JumpRule cfg a ∧ N.Extra cfg a) (start flash) as)
    {cfg : Conf} (hcfg : cfg = (board passCalls depth).run (start flash) as) :
    N.Safe (N.view cfg.state cfg.trace) ∧ (cfg.task .lcd = none →
      N.Rest (N.view cfg.state cfg.trace) ∨ N.Wiped (N.view cfg.state cfg.trace) ∨
      N.Emptied (N.view cfg.state cfg.trace)) := by
  have hstart : (N.protocol depth).Good (fun _ => .rest) (start flash) :=
    Good.boot ⟨hsafe, hrest⟩ fun _ => .inl rfl
  obtain ⟨gs, hgood⟩ := run_good (begins_board (begins hpass)) hstart h
  rw [← hcfg] at hgood
  refine ⟨hgood.1.1, fun hidle => ?_⟩
  have hinv : N.Settled (gs .lcd) (gs .timer) (N.view cfg.state cfg.trace) (lastOp .timer cfg.trace) := hgood.1.2
  rw [at_idle (hgood.idle hidle)] at hinv
  cases ht : gs .timer with
  | rest => rw [ht] at hinv; exact .inl hinv
  | wiped => rw [ht] at hinv; exact .inr (.inl hinv.1)
  | emptied => rw [ht] at hinv; exact .inr (.inr hinv.1)
  | held y => rw [ht] at hinv; exact hinv.elim

end Pane

end Backwash.Lcd
