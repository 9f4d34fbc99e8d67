import Backwash.Lcd.Walk
import Backwash.Motor.Cycle

/-! The main menu.

Window 1 shows four entries, or on a page of its own the entry Info. Which entry
K2 opens is `NowButtonId`, a variable that most windows use; what is shown is the
page and the buttons. The two are linked again whenever the menu draws itself with
the four entries, but not when it draws the Info page. -/
namespace Backwash.Lcd
open Concurrent Prog Firmware Motor

/-! ### The property -/

/-- Of the four entries `n` is the selected one. -/
def Picks (n : Nat) (b : Nat → Nat) : Prop := ∀ i < 4, b i = if i = n then 1 else 0

/-- What is shown is what K2 opens. -/
structure Screen.Link (x : Screen) : Prop where
  info : x.page = 1 → x.now = 4
  entry : x.page ≠ 1 → x.now < 4
  button : x.page ≠ 1 → Picks x.now x.button
  shown : x.page ≠ 1 → Picks x.now x.shown

def pushes : Op → Option Win
  | .guiWinAdd w => some w
  | _ => none

/-- The window the display thread has just pushed. -/
def pushed : Trace → Option Win
  | [] => none
  | .did .lcd o _ :: _ => pushes o
  | _ :: tr => pushed tr

/-- Where the main menu is on top and drawn it shows what K2 opens, and what it opens
is the selected entry. -/
structure OpensSelected (cfg : Conf) : Prop where
  link : cfg.task .lcd = none → cfg.state.wins.head? = some .w1 → cfg.state.vars (.firstFlag .w1) ≠ 0 →
    (screen cfg.state).Link
  opens : ∀ w n, pushed cfg.trace = some w → entry w = some n → cfg.state.vars .nowButtonId = n ∧
    (n < 4 → Picks n cfg.state.button ∧ Picks n cfg.state.shown)

/-! ### The rule -/

/-- The keys whose tokens are taken before. -/
def earlier : Sem → List Sem
  | .k1 => [.k0]
  | .k2 => [.k0, .k1]
  | .k2Long => [.k0, .k1, .k2]
  | _ => []

/-- A window takes tokens of one key only, and the settings are not opened from the
Info page. -/
def menuMay (s : Device) : Op → Bool
  | .semTake k => (s.sem k).isEmpty || (earlier k).all fun j => (s.taken j).isNone
  | .guiWinAdd w => w != .w14 || s.vars .win1PageID != 1
  | _ => true

def MenuRule (cfg : Conf) : Act → Prop
  | .step t _ => t = .lcd → (cfg.head t).all (menuMay cfg.state) = true
  | .start _ _ => True

instance (cfg : Conf) : ∀ a, Decidable (MenuRule cfg a)
  | .step _ _ => inferInstanceAs (Decidable (_ → _))
  | .start _ _ => inferInstanceAs (Decidable True)

/-! ### The view -/

structure MainMenu where
  screen : Screen
  pushed : Option Win

/-- The answers the rule leaves. -/
def orderly : (o : Op) → Screen → Res o → Prop
  | .semTake k, x, b => b = true → ∀ j ∈ earlier k, x.took j = false
  | .guiWinAdd w, x, _ => w = .w14 → x.page ≠ 1
  | _, _, _ => True

theorem orderly_exec {o : Op} {i : Input} {s : Device} (h : menuMay s o = true) :
    orderly o (screen s) (exec .lcd o i s).2 := by
  cases o with
  | semTake k =>
    intro hb j hj
    have hsem : (s.sem k).isEmpty = false := by simpa [exec] using hb
    have hall : (earlier k).all (fun j => (s.taken j).isNone) = true := by simpa [menuMay, hsem] using h
    have hnone : s.taken j = none := by simpa using List.all_eq_true.mp hall j hj
    simp [screen, hnone]
  | guiWinAdd w =>
    rintro rfl
    have hpage : s.vars .win1PageID ≠ 1 := by simpa [menuMay] using h
    exact hpage
  | _ => trivial

/-- While the page is `p`: on the Info page the entry is Info and the windows are the
main menu and what a request or an alert puts over it. -/
structure MainMenu.Kept (p : Nat) (x : MainMenu) : Prop where
  page : x.screen.page = p
  info : p = 1 → x.screen.now = 4 ∧ ∀ u ∈ x.screen.wins, u = .w1 ∨ menu u = false
  link : x.screen.flag .w1 ≠ 0 → x.screen.Link

namespace MainMenu

def after (o : Op) (r : Res o) (x : MainMenu) : MainMenu := ⟨x.screen.after o r, pushes o⟩

/-- The window that was pushed is that of the selected entry. -/
def Safe (x : MainMenu) : Prop :=
  ∀ w n, x.pushed = some w → entry w = some n → x.screen.now = n ∧
    (n < 4 → Picks n x.screen.button ∧ Picks n x.screen.shown)

theorem safe_after {o : Op} {r : Res o} {x : MainMenu} (h : ∀ w, o = .guiWinAdd w → entry w = none) :
    (x.after o r).Safe := by
  intro w n hw hn
  cases o with
  | guiWinAdd v =>
    obtain rfl : v = w := Option.some.inj hw
    rw [h v rfl] at hn
    cases hn
  | _ => cases hw

theorem Kept.keep {p : Nat} {x y : MainMenu} (h : x.Kept p) (hs : y.screen = x.screen) : y.Kept p := by
  refine ⟨?_, ?_, ?_⟩
  · rw [hs]
    exact h.page
  · rw [hs]
    exact h.info
  · rw [hs]
    exact h.link

end MainMenu

/-! ### The pane -/

def menuView (s : Device) (tr : Trace) : MainMenu := ⟨screen s, pushed tr⟩

section
variable {t : Thread} {o : Op} {i : Input} {s : Device} {tr : Trace}

theorem menu_after :
    menuView (exec .lcd o i s).1 (.did .lcd o i :: tr) = (menuView s tr).after o (exec .lcd o i s).2 := by
  unfold menuView MainMenu.after
  rw [screen_exec]
  rfl

theorem pushed_other (ht : t ≠ .lcd) : pushed (.did t o i :: tr) = pushed tr := by
  cases t <;> first | exact absurd rfl ht | rfl

theorem menu_other (ht : t ≠ .lcd) (hmay : may t o = true) (hh : homing o = false) :
    menuView (exec t o i s).1 (.did t o i :: tr) = menuView s tr := by
  unfold menuView
  rw [screen_other ht hmay hh, pushed_other ht]

theorem menu_home : menuView (exec .timer o i s).1 (.did .timer o i :: tr) =
    ⟨(screen s).after o (exec .timer o i s).2, pushed tr⟩ := by
  unfold menuView
  rw [screen_exec]
  rfl

end

/-- The main menu is not drawn, and nothing else but what a `memset` misses. -/
structure MainMenu.Wiped (x : MainMenu) : Prop where
  safe : x.Safe
  kept : x.Kept x.screen.page
  stale : ∀ u, x.screen.flag u ≠ 0 → Stale (· == .w27) u

/-- What `JumptoMainWin` does to the windows is none of the menu's business. -/
theorem MainMenu.Wiped.of {x : MainMenu} (hsafe : x.Safe) (hk : x.Kept x.screen.page) {a : Stack}
    (hstale : ∀ u, a.flag u ≠ 0 → Stale (· == .w27) u) (hwins : ∀ u ∈ a.wins, u ∈ x.screen.wins ∨ u = .w1) :
    MainMenu.Wiped ⟨{x.screen with toStack := a}, x.pushed⟩ := by
  refine ⟨hsafe, ⟨rfl, fun hp => ?_, fun h1 => ?_⟩, hstale⟩
  · obtain ⟨hnow, hcalm⟩ := hk.info hp
    refine ⟨hnow, fun u hu => ?_⟩
    rcases hwins u hu with e | e
    · exact hcalm u e
    · exact .inl e
  · rcases hstale _ h1 with ⟨-, e | e⟩ <;> cases e

def mainMenu : Pane MainMenu where
  can := fun o x r => x.screen.can o r ∧ orderly o x.screen r
  after := MainMenu.after
  Safe := MainMenu.Safe
  view := menuView
  Extra := MenuRule
  Rest := fun x => x.Safe ∧ x.Kept x.screen.page ∧ Tidy (· == .w27) x.screen.toStack
  Wiped := MainMenu.Wiped
  Emptied := fun x => x.Wiped ∧ x.screen.wins = []
  view_can := fun {cfg i o} hr hhead => ⟨screen_can, orderly_exec (by simpa [hhead] using hr rfl)⟩
  view_after := fun _ _ _ => menu_after
  view_other := fun _ _ _ => menu_other
  view_began := fun t c s tr => by
    unfold menuView
    rw [screen_enter]
    rfl
  delay := fun {x} hx => by
    have hsafe : (x.after (.mdelay 10) ()).Safe := MainMenu.safe_after (by simp)
    exact ⟨hsafe, hsafe, hx.2.1.keep rfl, hx.2.2⟩
  wipe := fun {cfg} i _ _ hx => by
    rw [menu_home]
    have hwiped : MainMenu.Wiped ⟨(screen cfg.state).after .memsetFirstFlag (exec .timer .memsetFirstFlag i cfg.state).2,
        pushed cfg.trace⟩ := .of hx.1 hx.2.1 (hx.2.2.wipe (.inl rfl)).2 fun u hu => .inl hu
    exact ⟨hwiped.safe, hwiped⟩
  empty := fun i s tr hx => by
    rw [menu_home]
    have hwiped : MainMenu.Wiped ⟨(screen s).after .guiWinInit (exec .timer .guiWinInit i s).2, pushed tr⟩ :=
      .of hx.safe hx.kept (a := {(screen s).toStack with wins := []}) hx.stale fun u hu => absurd hu (by simp)
    exact ⟨hwiped.safe, hwiped, rfl⟩
  home := fun i s tr hx => by
    rw [menu_home]
    obtain ⟨hw, hwins⟩ := hx
    have hwins' : ((screen s).toStack.push .w1).wins = [.w1] := Stack.wins_home hwins
    have hwiped : MainMenu.Wiped ⟨(screen s).after (.guiWinAdd .w1) (exec .timer (.guiWinAdd .w1) i s).2, pushed tr⟩ :=
      .of hw.safe hw.kept (a := (screen s).toStack.push .w1) hw.stale fun u hu => by
        rw [hwins'] at hu
        exact .inr (by simpa using hu)
    refine ⟨hwiped.safe, hwiped.safe, hwiped.kept, ?_, fun u hu => .inr (hw.stale u hu)⟩
    show Tree ((screen s).toStack.push .w1).wins
    rw [hwins']
    rfl

/-! ### Other windows, requests -/

/-- An operation on the windows alone, or on neither. -/
theorem Screen.Link.keep {o : Op} {r : Res o} {x : Screen} (h : x.Link) (ho : inert o = true ∨ still o = false) :
    (x.after o r).Link := by
  rcases ho with ho | ho
  · rw [Screen.after_inert ho]
    exact h
  · cases o with
    | store v n => cases v <;> first | exact ⟨h.info, h.entry, h.button, h.shown⟩ | cases ho
    | _ => first | exact ⟨h.info, h.entry, h.button, h.shown⟩ | cases ho

theorem opens_alert {v w : Win} (hw : menu w = false) (h : opens w v = true) : v = .w1 ∨ menu v = false := by
  cases w
  case w3 => cases v <;> first | exact .inl rfl | exact .inr rfl | cases h
  case w25 => cases v <;> first | exact .inl rfl | exact .inr rfl | cases h
  case w26 => cases v <;> first | exact .inl rfl | exact .inr rfl | cases h
  case w27 => cases v <;> first | exact .inl rfl | exact .inr rfl | cases h
  all_goals cases hw

theorem opens_entry {v w : Win} (hw : w ≠ .w1) (h : opens w v = true) : entry v = none := by
  cases he : entry v with
  | none => rfl
  | some n =>
    have h1 : v ≠ .w1 := fun e => by rw [e] at he; cases he
    simp [opens, he, h1, hw] at h

/-- What becomes of the windows where the others are requests and alerts. -/
theorem calm_after {o : Op} {r : Res o} {a : Stack} (h : ∀ u ∈ a.wins, u = .w1 ∨ menu u = false)
    (hpush : ∀ v, o = .guiWinAdd v → v = .w1 ∨ menu v = false) : ∀ u ∈ (a.after o r).wins, u = .w1 ∨ menu u = false := by
  cases o with
  | store v n => cases v <;> exact h
  | semTake k =>
    simp only [Stack.after, Stack.take]
    split <;> exact h
  | guiWinInit => exact fun u hu => absurd hu (by simp [Stack.after])
  | guiWinAdd v =>
    intro u hu
    simp only [Stack.after, Stack.push] at hu
    split at hu
    · exact h u hu
    · rcases List.mem_cons.mp hu with rfl | hu
      · exact hpush _ rfl
      · exact h u hu
  | guiWinDeleteTop =>
    intro u hu
    simp only [Stack.after, Stack.pop] at hu
    split at hu
    · exact h u hu
    · exact h u (List.mem_of_mem_tail hu)
  | _ => exact h

/-- Other windows keep the link; those that use `NowButtonId` are not there while the
Info page is shown. -/
theorem MainMenu.Kept.other {p : Nat} {w : Win} {o : Op} {x : MainMenu} {r : Res o} (h : x.Kept p) (hw : w ≠ .w1)
    (hown : ownMay w o = true) (hcalm : p = 1 → menu w = false) (hnow : ∀ n, o = .store .nowButtonId n → menu w = true)
    (hpush : ∀ v, o = .guiWinAdd v → opens w v = true) (hquiet : inert o = false → still o = true → x.screen.flag .w1 = 0) :
    mainMenu.Safe (x.after o r) ∧ (x.after o r).Kept p := by
  refine ⟨safe_after fun v e => opens_entry hw (hpush v e), ?_, fun hp => ⟨?_, ?_⟩, fun h1 => ?_⟩
  · have hpage : (x.screen.after o r).page = x.screen.page := by
      cases o with
      | store v n => cases v <;> first | rfl | exact absurd (by simpa [ownMay] using hown) hw
      | _ => rfl
    exact hpage.trans h.page
  · have hsame : (x.screen.after o r).now = x.screen.now := by
      cases o with
      | store v n => cases v <;> first | rfl | exact absurd (hnow n rfl) (by rw [hcalm hp]; decide)
      | _ => rfl
    exact hsame.trans (h.info hp).1
  · exact calm_after (h.info hp).2 fun v e => opens_alert (hcalm hp) (hpush v e)
  · have h1' : x.screen.flag .w1 ≠ 0 := by
      rcases Stack.flag_after h1 with e | ⟨n, -, rfl⟩
      · exact e
      · exact absurd (by simpa [ownMay] using hown : Win.w1 = w ∧ _).1.symm hw
    refine (h.link h1').keep ?_
    by_contra hn
    rw [not_or, Bool.not_eq_true, Bool.not_eq_false] at hn
    exact h1' (hquiet hn.1 hn.2)

/-! ### The menu draws itself -/

/-- An operation that pushes nothing. -/
theorem menu_skip {β : Type} {o : Op} {f : Res o → Code β} {x : MainMenu} {Q : β → MainMenu → Prop}
    (ho : pushes o = none) (hf : ∀ r, mainMenu.can o x r → mainMenu.Run (f r) (x.after o r) Q) :
    mainMenu.Run (perform o >>= f) x Q := by
  refine Sight.Run.bind (R := fun r y => mainMenu.can o x r ∧ y = x.after o r) (Sight.Run.perform fun r hcan => ?_)
    fun r y hy => hy.2 ▸ hf r hy.1
  exact ⟨MainMenu.safe_after fun w e => (by rw [e] at ho; cases ho), hcan, rfl⟩

theorem menu_last {o : Op} {x : MainMenu} {Q : Res o → MainMenu → Prop} (ho : pushes o = none)
    (h : ∀ r, mainMenu.can o x r → Q r (x.after o r)) : mainMenu.Run (perform o) x Q :=
  Sight.Run.perform fun r hcan => ⟨MainMenu.safe_after fun w e => (by rw [e] at ho; cases ho), h r hcan⟩

/-- From `x` on the entry and the four buttons have become `n`, `b` and `d`. -/
structure MainMenu.Shape (x : MainMenu) (n : Nat) (b d : Nat → Nat) (y : MainMenu) : Prop where
  stack : y.screen.toStack = x.screen.toStack
  page : y.screen.page = x.screen.page
  now : y.screen.now = n
  button : ∀ i < 4, y.screen.button i = b i
  shown : ∀ i < 4, y.screen.shown i = d i

namespace MainMenu.Shape
variable {x y : MainMenu} {n : Nat} {b d : Nat → Nat} {β : Type} {Q : β → MainMenu → Prop}

theorem refl (x : MainMenu) : Shape x x.screen.now x.screen.button x.screen.shown x :=
  ⟨rfl, rfl, rfl, fun _ _ => rfl, fun _ _ => rfl⟩

theorem run_now {f : Nat → Code β} (h : Shape x n b d y) (hf : ∀ z, Shape x n b d z → mainMenu.Run (f n) z Q) :
    mainMenu.Run (load .nowButtonId >>= f) y Q := by
  refine menu_skip rfl fun (m : Nat) hcan => ?_
  have hm : m = n := Eq.trans hcan.1 h.now
  subst hm
  exact hf _ ⟨h.stack, h.page, h.now, h.button, h.shown⟩

theorem become {m k : Nat} (h : Shape x n b d y) (hm : m % 2 ^ 8 = k) :
    Shape x k b d (y.after (.store .nowButtonId m) ()) :=
  ⟨h.stack, h.page, hm, h.button, h.shown⟩

theorem run_set {f : Unit → Code β} {i v : Nat} (h : Shape x n b d y) (hi : i < 5)
    (hf : ∀ z, Shape x n (Function.update b i v) d z → mainMenu.Run (f ()) z Q) :
    mainMenu.Run (setButton i v >>= f) y Q := by
  refine menu_skip rfl fun _ _ => hf _ ⟨h.stack, h.page, h.now, fun j hj => ?_, h.shown⟩
  show (if i < 5 then Function.update y.screen.button i v else y.screen.button) j = _
  rw [if_pos hi]
  by_cases hij : j = i
  · subst hij
    simp
  · simpa [hij] using h.button j hj

theorem draw (h : Shape x n b d y) (i : Nat) :
    Shape x n b (Function.update d i (b i)) (y.after (.guiButton i) ()) := by
  refine ⟨h.stack, h.page, h.now, h.button, fun j hj => ?_⟩
  show Function.update y.screen.shown i (y.screen.button i) j = _
  by_cases hij : j = i
  · subst hij
    simpa using h.button j hj
  · simpa [hij] using h.shown j hj

theorem run_show {f : Unit → Code β} {i : Nat} (h : Shape x n b d y)
    (hf : ∀ z, Shape x n b (Function.update d i (b i)) z → mainMenu.Run (f ()) z Q) :
    mainMenu.Run (guiButton i >>= f) y Q :=
  menu_skip rfl fun _ _ => hf _ (h.draw i)

/-- The button of the entry is drawn. -/
theorem run_draw (h : Shape x n b d y) (hn : n < 5) (v : Nat) :
    mainMenu.Run (drawNowButton v) y fun _ z => Shape x n (Function.update b n v) (Function.update d n v) z := by
  refine h.run_now fun z hz => hz.run_set hn fun z hz => menu_last rfl fun _ _ => ?_
  have hdraw := hz.draw n
  rwa [Function.update_self] at hdraw

theorem link (h : Shape x n b d y) (hp : x.screen.page ≠ 1) (hn : n < 4) (hb : Picks n b) (hd : Picks n d) :
    y.screen.Link := by
  refine ⟨fun e => absurd (h.page ▸ e) hp, fun _ => h.now ▸ hn, fun _ i hi => ?_, fun _ i hi => ?_⟩
  · rw [h.now, h.button i hi]
    exact hb i hi
  · rw [h.now, h.shown i hi]
    exact hd i hi

/-- The four entries are drawn. -/
theorem run_entries {v₀ v₁ v₂ v₃ : Nat} (h : Shape x n b d y) (hn : n < 4) (hp : x.screen.page ≠ 1)
    (h₀ : v₀ = if 0 = n then 1 else 0) (h₁ : v₁ = if 1 = n then 1 else 0) (h₂ : v₂ = if 2 = n then 1 else 0)
    (h₃ : v₃ = if 3 = n then 1 else 0) :
    mainMenu.Run (do
      setButton 0 v₀; setButton 1 v₁; setButton 2 v₂; setButton 3 v₃; setButton 4 1
      guiButton 4; guiButton 0; guiButton 1; guiButton 2; guiButton 3
      store (.firstFlag .w1) 1) y fun _ z => z.screen.Link ∧ z.screen.page = x.screen.page ∧
        z.screen.toStack = x.screen.toStack.set .w1 1 := by
  refine h.run_set (by omega) fun z hz => hz.run_set (by omega) fun z hz => hz.run_set (by omega) fun z hz =>
    hz.run_set (by omega) fun z hz => hz.run_set (by omega) fun z hz => ?_
  refine hz.run_show fun z hz => hz.run_show fun z hz => hz.run_show fun z hz => hz.run_show fun z hz =>
    hz.run_show fun z hz => menu_last rfl fun _ _ => ⟨?_, hz.page, ?_⟩
  · have hlink : z.screen.Link := by
      refine hz.link hp hn (fun i hi => ?_) fun i hi => ?_ <;>
      obtain rfl | rfl | rfl | rfl : i = 0 ∨ i = 1 ∨ i = 2 ∨ i = 3 := by omega
      all_goals simp [h₀, h₁, h₂, h₃]
    exact hlink.keep (o := .store (.firstFlag .w1) 1) (.inr rfl)
  · show z.screen.toStack.set .w1 1 = _
    rw [hz.stack]

end MainMenu.Shape

theorem run_userMain1Draw {p : Nat} {x : MainMenu} (h : x.Kept p) :
    mainMenu.Run userMain1Draw x fun _ y => y.Kept p ∧
      (y.screen.toStack = x.screen.toStack ∨ y.screen.toStack = x.screen.toStack.set .w1 1) := by
  have hentries : ∀ {y : MainMenu}, p ≠ 1 → y.screen.Link ∧ y.screen.page = x.screen.page ∧
      y.screen.toStack = x.screen.toStack.set .w1 1 → y.Kept p ∧
      (y.screen.toStack = x.screen.toStack ∨ y.screen.toStack = x.screen.toStack.set .w1 1) := fun hp hy =>
    ⟨⟨hy.2.1.trans h.page, fun e => absurd e hp, fun _ => hy.1⟩, .inr hy.2.2⟩
  refine menu_skip rfl fun (page : Nat) hcan => ?_
  obtain rfl : page = p := Eq.trans hcan.1 h.page
  have hx : MainMenu.Shape x x.screen.now x.screen.button x.screen.shown (x.after (.load .win1PageID) page) :=
    ⟨rfl, rfl, rfl, fun _ _ => rfl, fun _ _ => rfl⟩
  split
  · refine menu_skip rfl fun _ _ => ?_
    exact ((hx.become rfl).run_entries (by omega) (by rw [h.page]; decide) rfl rfl rfl rfl).mono fun _ _ => hentries (by decide)
  · -- the Info page leaves `NowButtonId` as it finds it
    simp only [drawButton, Prog.bind_assoc]
    refine hx.run_set (by omega) fun y hy => hy.run_show fun y hy => hy.run_set (by omega) fun y hy =>
      hy.run_show fun y hy => menu_last rfl fun _ _ => ?_
    have hpage : y.screen.page = 1 := hy.page.trans h.page
    have hnow : y.screen.now = 4 := hy.now.trans (h.info rfl).1
    refine ⟨⟨hpage, fun _ => ⟨hnow, fun u hu => (h.info rfl).2 u ?_⟩, fun _ => ?_⟩, .inr ?_⟩
    · rw [← hy.stack]
      exact hu
    · exact ⟨fun _ => hnow, fun e => absurd hpage e, fun e => absurd hpage e, fun e => absurd hpage e⟩
    · show y.screen.toStack.set .w1 1 = _
      rw [hy.stack]
  · refine menu_skip rfl fun _ _ => ?_
    exact ((hx.become rfl).run_entries (by omega) (by rw [h.page]; decide) rfl rfl rfl rfl).mono fun _ _ => hentries (by decide)
  · exact ⟨h.keep rfl, .inl rfl⟩

theorem run_menuDraw {p : Nat} {x : MainMenu} (h : x.Kept p) (display : Code Unit) (hf : x.screen.flag .w1 = 0) :
    mainMenu.Run (winFun display .w1) x fun _ y => y.Kept p ∧
      (y.screen.toStack = x.screen.toStack ∨ y.screen.toStack = x.screen.toStack.set .w1 1) := by
  refine menu_skip rfl fun (n : Nat) hcan => ?_
  rw [if_pos (show n = 0 from Eq.trans hcan.1 hf)]
  exact run_userMain1Draw (h.keep rfl)

/-! ### Guide and service -/

/-- The guide through the other windows, while the page of the menu is `p`. -/
def menuGuide (p : Nat) : Guide mainMenu.toSight (· == .w27) where
  stack := fun x => x.screen.toStack
  Held := fun
    | .draw w => fun x => (x.Kept p ∧ (p = 1 → w = .w1 ∨ menu w = false)) ∧ (w = .w1 ∨ x.screen.flag .w1 = 0)
    | .keys w => fun x => x.Kept p ∧ (p = 1 → w = .w1 ∨ menu w = false)
  special := fun w => w == .w1
  stack_after := fun _ _ _ => rfl
  stack_can := fun h => Screen.stack_can h.1
  draw := fun {w o x r} hs ho hx _ => by
    have hw : w ≠ .w1 := by simpa using hs
    obtain ⟨hwin, hdraw⟩ := Bool.and_eq_true_iff.mp ho
    have hown := (Bool.and_eq_true_iff.mp hwin).2
    have h1 : x.screen.flag .w1 = 0 := hx.2.resolve_left hw
    obtain ⟨hsafe, hkept⟩ := hx.1.1.other (r := r) hw hown (fun hp => (hx.1.2 hp).resolve_left hw)
      (fun n e => by rw [e] at hdraw; exact hdraw) (fun v e => by rw [e] at hdraw; cases hdraw) fun _ _ => h1
    refine ⟨hsafe, ⟨hkept, hx.1.2⟩, .inr ?_⟩
    by_contra hne
    rcases Stack.flag_after hne with e | ⟨n, -, rfl⟩
    · exact e h1
    · exact hw (by simpa [ownMay] using (Bool.and_eq_true_iff.mp hown).1 : Win.w1 = w).symm
  keys := fun {w o x r} hs ho hallow hx _ => by
    have hw : w ≠ .w1 := by simpa using hs
    obtain ⟨hwin, hkeys⟩ := Bool.and_eq_true_iff.mp ho
    obtain ⟨hsafe, hkept⟩ := hx.1.other (r := r) hw (Bool.and_eq_true_iff.mp hwin).2 (fun hp => (hx.2 hp).resolve_left hw)
      (fun n e => by rw [e] at hkeys; exact hkeys) (fun v e => by rw [e] at hkeys; exact hkeys)
      fun hi hst => (hallow.2 hi hst).resolve_left hw
    refine ⟨hsafe, ⟨hkept, hx.2⟩, fun e => ?_⟩
    rw [e] at hkeys
    cases w <;> first | exact absurd rfl hw | cases hkeys
  turn := fun h => h.1
  enter := fun {w v x} hx hhead _ hv _ => by
    refine ⟨MainMenu.safe_after (by simp), ⟨hx.1.keep rfl, fun hp => (hx.1.info hp).2 v ?_⟩, hv⟩
    exact List.mem_of_mem_head? hhead
  top := fun hx _ => ⟨MainMenu.safe_after (by simp), hx.1.keep rfl, hx.2⟩
  leave := fun hx hy => ⟨hy.1, hx.2⟩
  special_draw := fun {v x} display hs hx hf => by
    obtain rfl : v = .w1 := by simpa using hs
    exact (run_menuDraw hx.1.1 display hf).mono fun _ y hy => ⟨⟨⟨hy.1, hx.1.2⟩, .inl rfl⟩, hy.2⟩

theorem menuService : Service mainMenu.toSight (· == .w27) (fun x => x.screen.toStack) fun x => x.Kept x.screen.page where
  stack_after := fun _ _ _ => rfl
  stack_can := fun h => Screen.stack_can h.1
  aside := fun {o x r} ho hx _ => by
    obtain ⟨hin, hst⟩ := Bool.and_eq_true_iff.mp (Bool.and_eq_true_iff.mp ho).2
    have hscreen : (x.after o r).screen = x.screen := Screen.after_inert hin r x.screen
    refine ⟨MainMenu.safe_after fun w e => (by rw [e] at hst; cases hst), ?_⟩
    show (x.after o r).Kept (x.after o r).screen.page
    rw [hscreen]
    exact hx.keep hscreen
  clear := fun {w x} hw hx _ => by
    refine ⟨MainMenu.safe_after (by simp), rfl, hx.info, fun h1 => (hx.link fun e => h1 ?_).keep (.inr rfl)⟩
    exact (Stack.flag_set_of_ne (by rcases hw with rfl | rfl <;> decide) x.screen.toStack 0).trans e
  wipe := fun {x} hx _ => by
    have h1 : (x.after .memsetFirstFlag ()).screen.flag .w1 = 0 := rfl
    exact ⟨MainMenu.safe_after (by simp), ⟨rfl, hx.info, fun e => absurd h1 e⟩, .inl rfl⟩
  push := fun {w x} hw _ hx _ => by
    have hcalm : menu w = false := by rcases hw with rfl | rfl <;> rfl
    refine ⟨MainMenu.safe_after fun v e => ?_, rfl, fun hp => ⟨(hx.info hp).1, ?_⟩, fun h1 => ?_⟩
    · cases e
      rcases hw with rfl | rfl <;> rfl
    · exact calm_after (o := .guiWinAdd w) (r := ()) (hx.info hp).2 fun v e => by cases e; exact .inr hcalm
    · exact (hx.link h1).keep (o := .guiWinAdd w) (.inr rfl)
  alert := fun {w x} hw hx => by
    have hcalm : menu w = false := by rcases hw with rfl | rfl <;> rfl
    refine Sight.Run.bind (R := fun _ y => y = x.after (.guiWinAdd w) ()) (Sight.Run.perform fun _ _ => ?_) fun _ y hy =>
      menu_last rfl fun _ _ => ?_
    · refine ⟨MainMenu.safe_after fun v e => ?_, rfl⟩
      cases e
      rcases hw with rfl | rfl <;> rfl
    · subst hy
      have h1 : ((x.after (.guiWinAdd w) ()).after .memsetFirstFlag ()).screen.flag .w1 = 0 := rfl
      refine ⟨⟨rfl, fun hp => ⟨(hx.info hp).1, ?_⟩, fun e => absurd h1 e⟩, rfl, .inl rfl⟩
      exact calm_after (o := .guiWinAdd w) (r := ()) (hx.info hp).2 fun v e => by cases e; exact .inr hcalm

/-! ### The keys of the menu -/

theorem Picks.move {n m : Nat} {b : Nat → Nat} (h : Picks n b) :
    Picks m (Function.update (Function.update b n 0) m 1) := by
  intro i hi
  by_cases him : i = m
  · subst him
    simp
  · by_cases hin : i = n
    · subst hin
      simp [him]
    · simpa [him, hin] using h i hi

namespace MainMenu

/-- What a pass leaves behind. -/
def Left (x : MainMenu) : Prop := x.Kept x.screen.page ∧ Tidy (· == .w27) x.screen.toStack

/-- The menu is on top and drawn. -/
structure Drawn (x : MainMenu) : Prop where
  left : x.Left
  wins : x.screen.wins.head? = some .w1
  flag : x.screen.flag .w1 ≠ 0

variable {x y : MainMenu}

theorem Drawn.link (h : x.Drawn) : x.screen.Link := h.left.1.link h.flag

/-- The menu is going to draw another page. -/
theorem Drawn.turned (h : x.Drawn) (hs : y.screen.toStack = x.screen.toStack.set .w1 0)
    (hinfo : y.screen.page = 1 → y.screen.now = 4) : y.Left := by
  have hwins : y.screen.wins = [.w1] := by
    rw [hs]
    exact h.left.2.tree.main h.wins
  refine ⟨⟨rfl, fun hp => ⟨hinfo hp, fun u hu => .inl ?_⟩, fun h1 => absurd ?_ h1⟩, ?_⟩
  · rw [hwins] at hu
    simpa using hu
  · rw [hs]
    exact Stack.flag_set_self _ _ _
  · rw [hs]
    exact h.left.2.set_zero .w1

/-- The menu has moved to another of the four entries. -/
theorem Drawn.moved {m : Nat} (h : x.Drawn) (hp : x.screen.page ≠ 1) (hm : m < 4)
    (hy : Shape x m (Function.update (Function.update x.screen.button x.screen.now 0) m 1)
      (Function.update (Function.update x.screen.shown x.screen.now 0) m 1) y) : y.Left := by
  refine ⟨⟨rfl, fun e => absurd (hy.page ▸ e) hp, fun _ => ?_⟩, ?_⟩
  · exact hy.link hp hm (h.link.button hp).move (h.link.shown hp).move
  · rw [hy.stack]
    exact h.left.2

/-- A step past the ends of the four entries turns the page. -/
theorem Drawn.run_turn {step : Code Unit} {n : Nat} (h : x.Drawn) (hn : n % 2 ^ 8 ≠ 1)
    (hy : y.screen.toStack = x.screen.toStack)
    (hstep : mainMenu.Run step y fun _ z => z.screen.toStack = y.screen.toStack) :
    mainMenu.Run (do step; store .win1PageID n; store (.firstFlag .w1) 0) y fun _ z => z.Left := by
  refine hstep.bind fun _ z hz => menu_skip rfl fun _ _ => menu_last rfl fun _ _ => ?_
  exact h.turned (congrArg (Stack.set · .w1 0) (hz.trans hy)) fun e => absurd e hn

/-- A step among the four entries. -/
theorem Drawn.run_move {change : Code Unit} {m : Nat} (h : x.Drawn) (hp : x.screen.page ≠ 1) (hm : m < 4)
    (hy : Shape x x.screen.now x.screen.button x.screen.shown y)
    (hchange : ∀ b d z, Shape x x.screen.now b d z → mainMenu.Run change z fun _ u => Shape x m b d u) :
    mainMenu.Run (do drawNowButton 0; change; drawNowButton 1) y fun _ z => z.Left := by
  have hn : x.screen.now < 4 := h.link.entry hp
  refine (hy.run_draw (by omega) 0).bind fun _ z hz => (hchange _ _ z hz).bind fun _ u hu => ?_
  exact (hu.run_draw (by omega) 1).mono fun _ v hv => h.moved hp hm hv

theorem Drawn.run_userMain1Up (h : x.Drawn) : mainMenu.Run userMain1Up x fun _ y => y.Left := by
  refine (Shape.refl x).run_now fun z hz => ?_
  split
  · refine menu_skip rfl fun _ _ => menu_skip rfl fun _ _ => menu_last rfl fun _ _ => ?_
    exact h.turned (congrArg (Stack.set · .w1 0) hz.stack) fun _ => rfl
  · refine h.run_turn (by decide) hz.stack ?_
    exact menu_skip rfl fun (m : Nat) _ => menu_last rfl fun _ _ => rfl
  · next h0 h4 =>
    have hp : x.screen.page ≠ 1 := fun e => h4 (h.link.info e)
    have hn := h.link.entry hp
    have hpos : 1 ≤ x.screen.now := Nat.one_le_iff_ne_zero.mpr h0
    show mainMenu.Run (do
      drawNowButton 0
      (do let b ← load .nowButtonId; if b ≥ 1 then decr .nowButtonId else store .nowButtonId 4)
      drawNowButton 1) z fun _ y => y.Left
    refine h.run_move (m := x.screen.now - 1) hp (by omega) hz fun b d y hy => hy.run_now fun u hu => ?_
    rw [if_pos hpos]
    refine hu.run_now fun v hv => menu_last rfl fun _ _ => hv.become ?_
    show (x.screen.now + (2 ^ 8 - 1)) % 2 ^ 8 = x.screen.now - 1
    omega

theorem Drawn.run_userMain1Down (h : x.Drawn) : mainMenu.Run userMain1Down x fun _ y => y.Left := by
  refine (Shape.refl x).run_now fun z hz => ?_
  split
  · next h3 =>
    refine menu_skip rfl fun _ _ => menu_skip rfl fun _ _ => menu_skip rfl fun (m : Nat) hm => menu_last rfl fun _ _ => ?_
    refine h.turned (congrArg (Stack.set · .w1 0) hz.stack) fun _ => ?_
    have hm' : m = z.screen.now := hm.1
    have hnow := hz.now
    show (m + 1) % 2 ^ 8 = 4
    omega
  · refine h.run_turn (by decide) hz.stack ?_
    exact menu_skip rfl fun (m : Nat) _ => menu_last rfl fun _ _ => rfl
  · next h3 h4 =>
    have hp : x.screen.page ≠ 1 := fun e => h4 (h.link.info e)
    have hn : x.screen.now < 3 := Nat.lt_of_le_of_ne (Nat.le_of_lt_succ (h.link.entry hp)) h3
    refine h.run_move (m := x.screen.now + 1) hp (by omega) hz fun b d y hy => ?_
    refine hy.run_now fun u hu => menu_last rfl fun _ _ => hu.become ?_
    show (x.screen.now + 1) % 2 ^ 8 = x.screen.now + 1
    omega

/-- K2 opens the selected entry. -/
theorem Drawn.run_userMain1Select (h : x.Drawn) : mainMenu.Run userMain1Select x fun _ y => y.Left := by
  refine menu_skip rfl fun _ _ => menu_skip rfl fun (n : Nat) hcan => ?_
  obtain rfl : n = x.screen.now := hcan.1
  -- what is left is to clear the flag
  let Pushed (y : MainMenu) : Prop := y.screen.page = 0 ∧ Tidy (· == .w27) (y.screen.toStack.set .w1 0)
  have hclear : ∀ y, Pushed y → mainMenu.Run (store (.firstFlag .w1) 0) y fun _ z => z.Left := fun y hy =>
    menu_last rfl fun _ _ => ⟨⟨rfl, fun e => absurd (hy.1.symm.trans e) (by decide),
      fun e => absurd (Stack.flag_set_self _ _ _) e⟩, hy.2⟩
  have hpush : ∀ w n, entry w = some n → x.screen.now = n → covers w .w1 = true →
      mainMenu.Run (guiWinAdd w) ((x.after (.store .win1PageID 0) ()).after (.load .nowButtonId) x.screen.now)
        fun _ y => Pushed y := by
    intro w n hw hn hover
    refine Sight.Run.perform fun _ _ => ⟨fun v m hv hm => ?_, rfl, h.left.2.push_set h.wins hover⟩
    obtain rfl : w = v := Option.some.inj hv
    obtain rfl : n = m := Option.some.inj (hw.symm.trans hm)
    refine ⟨hn, fun hlt => ?_⟩
    have hp : x.screen.page ≠ 1 := fun e => by
      have := h.link.info e
      omega
    exact ⟨hn ▸ h.link.button hp, hn ▸ h.link.shown hp⟩
  refine Sight.Run.bind (R := fun _ y => Pushed y) ?_ fun _ => hclear
  split
  all_goals first | exact hpush _ _ rfl ‹_› rfl | exact ⟨rfl, h.left.2.set_zero .w1⟩

theorem run_keyStatuses (h : x.Left) : mainMenu.Run keyStatuses x fun k y => y.Left ∧
    k.k0 = x.screen.took .k0 ∧ k.k1 = x.screen.took .k1 ∧ k.k2 = x.screen.took .k2 := by
  refine menu_skip rfl fun (k0 : Bool) h0 => menu_skip rfl fun (k1 : Bool) h1 => menu_skip rfl fun (k2 : Bool) h2 =>
    menu_skip rfl fun (k2Long : Bool) _ => ⟨⟨?_, h.2⟩, h0.1 (by decide), h1.1 (by decide), h2.1 (by decide)⟩
  exact (((h.1.keep rfl).keep rfl).keep rfl).keep rfl

/-- A long press opens the settings; the rule keeps it away from the Info page. They draw
themselves and take no keys. -/
theorem Drawn.run_k2Long (h : x.Drawn) (n : Nat) :
    mainMenu.Run (do store (.firstFlag .w1) 0; guiWinAdd .w14; guiWinDisplay n; keyStatuses) x fun k y => y.Left ∧
      k.k0 = x.screen.took .k0 ∧ k.k1 = x.screen.took .k1 ∧ k.k2 = x.screen.took .k2 := by
  have htidy := h.left.2
  have h14 : x.screen.flag .w14 = 0 := by
    by_contra hne
    rcases htidy.lit h.wins hne with e | e
    · cases e
    · exact absurd e.1 (by decide)
  have hwins : ((x.screen.toStack.set .w1 0).push .w14).wins = [.w14, .w1] := Stack.wins_settings htidy.tree h.wins
  have htree : Tree ((x.screen.toStack.set .w1 0).push .w14).wins := by
    rw [hwins]
    exact ⟨rfl, rfl⟩
  have hhead : ((x.screen.toStack.set .w1 0).push .w14).wins.head? = some .w14 := by rw [hwins]; rfl
  refine menu_skip rfl fun _ _ => ?_
  refine Sight.Run.bind (R := fun _ y => x.screen.page ≠ 1 ∧
      y = (x.after (.store (.firstFlag .w1) 0) ()).after (.guiWinAdd .w14) ())
    (Sight.Run.perform fun _ hcan => ?_) fun _ y hy => ?_
  · refine ⟨safe_after fun v e => ?_, hcan.2 rfl, rfl⟩
    cases e
    rfl
  obtain ⟨hp, rfl⟩ := hy
  have hflag : (x.screen.toStack.set .w1 0).flag .w1 = 0 := Stack.flag_set_self _ _ _
  have hheld : (menuGuide x.screen.page).Held (.keys .w1)
      ((x.after (.store (.firstFlag .w1) 0) ()).after (.guiWinAdd .w14) ()) :=
    ⟨⟨rfl, fun e => absurd e hp, fun e => absurd hflag e⟩, fun e => absurd e hp⟩
  refine (Guide.walk_display_took (Γ := menuGuide x.screen.page) (w := .w1) rfl n htree (.inr hflag) (fun v hv => ?_)
    (fun v hv => ?_) _ rfl hheld).bind fun _ z hz => ?_
  · rw [Option.some.inj (hv.symm.trans hhead)]
    rfl
  · obtain rfl : v = .w14 := Option.some.inj (hv.symm.trans hhead)
    have h14' : (x.screen.toStack.set .w1 0).flag .w14 = 0 := (Stack.flag_set_of_ne (by decide) _ _).trans h14
    exact .inl h14'
  · have hkept : z.Kept x.screen.page := hz.1.1
    have htook : z.screen.took = x.screen.took := hz.2.2.resolve_left (by decide)
    refine (run_keyStatuses ⟨by rw [hkept.page]; exact hkept, htidy.shown h.wins hz.2.1 rfl⟩).mono fun k y hy => ?_
    rwa [htook] at hy

/-- The tokens that were taken are of one key. -/
structure Single (k : Keys) : Prop where
  k1 : k.k1 = true → k.k0 = false
  k2 : k.k2 = true → k.k0 = false ∧ k.k1 = false
  k2Long : k.k2Long = true → k.k0 = false ∧ k.k1 = false ∧ k.k2 = false

theorem Drawn.same (h : x.Drawn) (hwins : y.screen.wins = x.screen.wins) (hflag : y.screen.flag = x.screen.flag)
    (hpage : y.screen.page = x.screen.page) (hnow : y.screen.now = x.screen.now) (hlink : y.screen.Link) : y.Drawn := by
  refine ⟨⟨⟨rfl, fun hp => ?_, fun _ => hlink⟩, h.left.2.congr hwins hflag⟩, by rw [hwins, h.wins], by rw [hflag]; exact h.flag⟩
  rw [hnow, hwins]
  exact h.left.1.info (hpage ▸ hp)

theorem Drawn.run_takeKeys (h : x.Drawn) : mainMenu.Run takeKeys x fun k y => (y.Drawn ∧ Single k) ∧
    k.k0 = y.screen.took .k0 ∧ k.k1 = y.screen.took .k1 ∧ k.k2 = y.screen.took .k2 := by
  refine menu_skip rfl fun (k0 : Bool) _ => menu_skip rfl fun (k1 : Bool) h1 => menu_skip rfl fun (k2 : Bool) h2 =>
    menu_skip rfl fun (k2Long : Bool) h3 => ⟨⟨h.same rfl rfl rfl rfl ?_, ?_⟩, rfl, rfl, rfl⟩
  · exact ⟨h.link.info, h.link.entry, h.link.button, h.link.shown⟩
  · refine ⟨fun e => h1.2 e .k0 (by simp [earlier]), fun e => ?_, fun e => ?_⟩
    · exact ⟨h2.2 e .k0 (by simp [earlier]), h2.2 e .k1 (by simp [earlier])⟩
    · exact ⟨h3.2 e .k0 (by simp [earlier]), h3.2 e .k1 (by simp [earlier]), h3.2 e .k2 (by simp [earlier])⟩

/-- The menu may still react to a key unless it has reacted to one. -/
def Ready (done : Bool) (x : MainMenu) : Prop := x.Left ∧ (done = false → x.Drawn)

theorem Ready.run {done : Bool} {b : Bool} {p : Code Unit} (h : x.Ready done) (hb : b = true → done = false)
    (hp : x.Drawn → mainMenu.Run p x fun _ y => y.Left) :
    mainMenu.Run (when (b = true) p) x fun _ y => y.Ready (done || b) := by
  refine Sight.Run.when (fun e => (hp (h.2 (hb e))).mono fun _ y hy => ⟨hy, fun hn => ?_⟩) fun e => ?_
  · simp [e] at hn
  · have hfalse : b = false := by simpa using e
    rw [hfalse, Bool.or_false]
    exact h

/-- A pass of the main menu. -/
theorem run_userMain1 (n : Nat) (hx : x.Left) (hw : x.screen.wins.head? = some .w1) :
    mainMenu.Run (userMain1WinFun (guiWinDisplay n)) x fun _ y => y.Left := by
  by_cases hf : x.screen.flag .w1 = 0
  · refine (run_menuDraw hx.1 (guiWinDisplay n) hf).mono fun _ y hy => ⟨by rw [hy.1.page]; exact hy.1, ?_⟩
    rcases hy.2 with e | e
    · rw [e]
      exact hx.2
    · rw [e]
      exact hx.2.set_top hw 1
  have hdrawn : x.Drawn := ⟨hx, hw, hf⟩
  refine menu_skip rfl fun (m : Nat) hcan => ?_
  rw [if_neg (show m ≠ 0 from fun e => hf (Eq.trans (Eq.symm hcan.1) e))]
  refine menu_skip rfl fun _ _ => ?_
  have hstart : MainMenu.Drawn ((x.after (.load (.firstFlag .w1)) m).after (.guiButton 4) ()) := by
    refine hdrawn.same rfl rfl rfl rfl ⟨hdrawn.link.info, hdrawn.link.entry, hdrawn.link.button, fun hp i hi => ?_⟩
    have hne : i ≠ 4 := by omega
    exact (Function.update_of_ne hne _ _).trans (hdrawn.link.shown hp i hi)
  refine (hstart.run_takeKeys).bind fun k y hy => ?_
  obtain ⟨⟨hy, hk⟩, hk0, hk1, hk2⟩ := hy
  refine Sight.Run.bind (R := fun j z => z.Ready k.k2Long ∧ j.k0 = k.k0 ∧ j.k1 = k.k1 ∧ j.k2 = k.k2)
    (Sight.Run.ite (fun e => ?_) fun e => ?_) fun j y hy => ?_
  · refine (hy.run_k2Long n).mono fun j z hz => ⟨⟨hz.1, fun hn => absurd (hn.symm.trans e) (by decide)⟩, ?_⟩
    rw [hk0, hk1, hk2]
    exact hz.2
  · exact ⟨⟨hy.left, fun _ => hy⟩, rfl, rfl, rfl⟩
  obtain ⟨hy, e0, e1, e2⟩ := hy
  rw [e0, e1, e2]
  refine (hy.run (b := k.k0) (fun e => ?_) fun hy => hy.run_userMain1Up).bind fun _ y hy => ?_
  · cases h2 : k.k2Long with
    | false => rfl
    | true => exact absurd e (by rw [(hk.k2Long h2).1]; decide)
  refine (hy.run (b := k.k1) (fun e => ?_) fun hy => hy.run_userMain1Down).bind fun _ y hy => ?_
  · cases h2 : k.k2Long with
    | false => rw [hk.k1 e]; rfl
    | true => exact absurd e (by rw [(hk.k2Long h2).2.1]; decide)
  refine (hy.run (b := k.k2) (fun e => ?_) fun hy => hy.run_userMain1Select).mono fun _ y hy => hy.1
  cases h2 : k.k2Long with
  | false => rw [(hk.k2 e).1, (hk.k2 e).2]; rfl
  | true => exact absurd e (by rw [(hk.k2Long h2).2.2]; decide)

end MainMenu

/-! ### Whole runs -/

theorem menu_pass (depth : Nat) (x : MainMenu) (hx : x.Left) :
    mainMenu.Run (passBody depth) x fun _ y => y.Left := by
  refine menuService.run_pass (menuService.run_display depth fun n w y hy hw => ?_) x hx
  refine menu_skip rfl fun _ _ => ?_
  have hkept : (y.after (.mark (.winFun w)) ()).Kept y.screen.page := hy.1.keep rfl
  by_cases h1 : w = .w1
  · subst h1
    exact MainMenu.run_userMain1 n ⟨hkept, hy.2⟩ hw
  · have hcalm : y.screen.page = 1 → w = .w1 ∨ menu w = false := fun hp =>
      (hy.1.info hp).2 w (List.mem_of_mem_head? hw)
    refine (Guide.winFun_tidy (Γ := menuGuide y.screen.page) rfl n (by simpa [menuGuide] using h1)
      ⟨⟨hkept, hcalm⟩, .inr (hy.2.flag_main hw h1)⟩ hy.2 hw).mono fun _ z hz => ⟨?_, hz.2⟩
    have hz' : z.Kept y.screen.page := hz.1.1
    rw [hz'.page]
    exact hz'

/-- K2 opens the entry that is shown selected, in a run that keeps to the rule. -/
theorem menu_opens_selected (depth : Nat) (flash : Nat → Nat) (as : List Act)
    (h : (board passCalls depth).Admits (fun cfg a => JumpRule cfg a ∧ MenuRule cfg a) (start flash) as) :
    OpensSelected ((board passCalls depth).run (start flash) as) := by
  have hview : mainMenu.view (boot flash) [] = ⟨Screen.blank, none⟩ := by
    show menuView (boot flash) [] = _
    unfold menuView
    rw [screen_boot]
    rfl
  have hsafe : mainMenu.Safe (mainMenu.view (boot flash) []) := by
    rw [hview]
    exact fun w n hw => absurd hw (by simp)
  have hrest : mainMenu.Rest (mainMenu.view (boot flash) []) := by
    refine ⟨hsafe, ?_⟩
    rw [hview]
    exact ⟨⟨rfl, fun e => absurd e (by decide), fun e => absurd rfl e⟩, rfl, fun u hu => absurd rfl hu⟩
  have hpass : ∀ x, mainMenu.Rest x → mainMenu.Safe x → mainMenu.Run (passBody depth) x fun _ y => mainMenu.Rest y :=
    fun x hx hs => (menu_pass depth x hx.2).safe hs
  obtain ⟨hsafe', hidle⟩ := Pane.run_settled hpass hrest hsafe h rfl
  refine ⟨fun hnone _ hflag => ?_, hsafe'⟩
  rcases hidle hnone with hr | hr | hr
  · exact hr.2.1.link hflag
  · exact hr.kept.link hflag
  · exact hr.1.kept.link hflag

/-- Two entries down, the automatic backwash is opened. -/
def openedAutomatic : List Act :=
  lcdPass ++ press .k1 ++ lcdPass ++ press .k1 ++ lcdPass ++ press .k2 ++ lcdPass

theorem menu_opens_selected_automatic :
    (board passCalls 2).Admits (fun cfg a => JumpRule cfg a ∧ MenuRule cfg a) (start fun _ => 0) openedAutomatic ∧
    OpensSelected ((board passCalls 2).run (start fun _ => 0) openedAutomatic) :=
  ⟨by decide +kernel, menu_opens_selected 2 (fun _ => 0) openedAutomatic (by decide +kernel)⟩

/-- K2 is held down until the long press counts. -/
def holdK2 : List Act := (List.replicate 11 (alone (.key .k2Long) {} 20)).flatten

/-- From the Info page a long press opens the settings; they are left by their fourth
entry. -/
def settingsFromInfo : List Act :=
  lcdPass ++ press .k0 ++ lcdPass ++ lcdPass ++ holdK2 ++ lcdPass ++
    press .k1 ++ lcdPass ++ press .k1 ++ lcdPass ++ press .k1 ++ lcdPass ++ press .k2 ++ lcdPass ++ lcdPass

/-- The Info page is drawn again, and K2 would open the manual backwash. -/
theorem not_opensSelected_settings : ¬ OpensSelected ((board passCalls 2).run (start fun _ => 0) settingsFromInfo) := by
  intro h
  have hidle : ((board passCalls 2).run (start fun _ => 0) settingsFromInfo).task .lcd = none := by
    rw [← Option.isNone_iff_eq_none]
    decide +kernel
  have hlink := h.link hidle (by decide +kernel) (by decide +kernel)
  exact absurd (hlink.info (by decide +kernel)) (by decide +kernel)

end Backwash.Lcd
