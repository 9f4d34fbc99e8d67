import Backwash.Lcd.Bottom
import Backwash.Lcd.Menu
import Backwash.Lcd.Overflow

/-! The way to a window.

Whatever is pressed, whatever is requested in between and however the battery does, the windows
on the stack are a way through the menus, with requests and alerts laid over it. The way need
not be one that a user would take: where K2 is taken together with a long press, an entry of the
main menu comes to lie over the settings menu. But the window that shows the reading of the
sensor (23) is reached by way of the password only. The two windows beside it, whose editor of
the offset (24) has its assignments commented out, are never shown at all. -/
namespace Backwash.Lcd
open Concurrent Prog Firmware Motor

/-! ### The property -/

/-- A way through the menus, or nothing. -/
def OnPath (ws : List Win) : Prop := Tree ws ∨ ws = []

/-- The stack is a way through the menus, but while a thread has emptied it and is about to push
the main menu. -/
def KeepsPath (cfg : Conf) : Prop :=
  Tree cfg.state.wins ∨
    (cfg.state.wins = [] ∧ ∃ t, resetting t cfg.trace = true ∧ cfg.head t = some (.guiWinAdd .w1))

/-- Between two passes no window but the one on top is drawn; the flags of the settings menu and
of window 27 can outlast their windows. -/
def TopDrawn (cfg : Conf) : Prop :=
  cfg.task .lcd = none → ∀ w, cfg.state.vars (.firstFlag w) ≠ 0 → cfg.state.wins.head? = some w ∨ w = .w14 ∨ w = .w27

/-! ### What lies on a way -/

/-- What is on a way has everything below it on the way as well. -/
theorem Tree.suffix {w : Win} {ws : List Win} (h : Tree ws) (hw : w ∈ ws) : ∃ rest, w :: rest <:+ ws ∧ Tree (w :: rest) := by
  induction ws with
  | nil => cases hw
  | cons u ws ih =>
    rcases List.mem_cons.mp hw with rfl | hw
    · exact ⟨ws, List.suffix_refl _, h⟩
    · cases ws with
      | nil => cases hw
      | cons v rest =>
        obtain ⟨below, hsuffix, htree⟩ := ih h.2 hw
        exact ⟨below, hsuffix.trans (List.suffix_cons u _), htree⟩

/-- Window 23, which shows the reading, lies over the password, the settings menu and the main menu. -/
theorem Tree.reading {rest : List Win} (h : Tree (.w23 :: rest)) : rest = [.w21, .w14, .w1] := by
  obtain ⟨v, below, h21, hcov, htree⟩ := h.below rfl (by decide)
  obtain rfl : v = .w21 := by cases v <;> first | rfl | cases hcov
  obtain ⟨v, below', h14, hcov, htree⟩ := htree.below rfl (by decide)
  obtain rfl : v = .w14 := by cases v <;> first | rfl | cases hcov
  obtain ⟨v, below'', h1, hcov, htree⟩ := htree.below rfl (by decide)
  obtain rfl : v = .w1 := by cases v <;> first | rfl | cases hcov
  have hmain := htree.main rfl
  rw [hmain] at h1
  rw [h1] at h14
  rw [h14] at h21
  exact List.tail_eq_of_cons_eq h21

/-- Windows 22 and 24 are on no way. -/
theorem Tree.never {w : Win} {ws : List Win} (h : Tree ws) (hw : w = .w22 ∨ w = .w24) : w ∉ ws := by
  intro hmem
  obtain ⟨rest, -, htree⟩ := h.suffix hmem
  obtain ⟨v, -, -, hcov, -⟩ := htree.below rfl (by rcases hw with rfl | rfl <;> decide)
  rcases hw with rfl | rfl <;> cases hcov

/-! ### The pane -/

theorem OnPath.push {a : Stack} {v : Win} (h : OnPath a.wins) (hplace : Placed a v) : Tree (a.push v).wins := by
  rcases hplace with ⟨rfl, he⟩ | ⟨u, hu, hover⟩
  · rw [Stack.wins_home he]
    rfl
  · refine Stack.tree_push (h.resolve_right fun e => ?_) hu hover
    rw [e] at hu
    cases hu

theorem OnPath.pop {a : Stack} (h : OnPath a.wins) : OnPath a.pop.wins := by
  simp only [Stack.pop]
  split
  · exact h
  · next hlen =>
    rcases hws : a.wins with _ | ⟨u, _ | ⟨v, rest⟩⟩
    · simp [hws] at hlen
    · simp [hws] at hlen
    · have ht : Tree (u :: v :: rest) := by
        rw [← hws]
        exact h.resolve_right (by rw [hws]; simp)
      exact .inl ht.2

theorem OnPath.after {o : Op} {r : Res o} {a : Stack} (h : OnPath a.wins) (hplace : ∀ v, o = .guiWinAdd v → Placed a v) :
    OnPath (a.after o r).wins := by
  cases o with
  | store v n => cases v <;> exact h
  | semTake k => cases k <;> exact h
  | guiWinInit => exact .inr rfl
  | guiWinAdd v => exact .inl (h.push (hplace v rfl))
  | guiWinDeleteTop => exact h.pop
  | _ => exact h

def path : Pane Stack where
  can := Stack.can
  after := Stack.after
  Safe := fun a => OnPath a.wins
  view := fun s _ => (screen s).toStack
  Extra := fun _ _ => True
  Rest := Tidy (fun _ => true)
  Wiped := fun a => OnPath a.wins ∧ ∀ u, a.flag u ≠ 0 → Stale (fun _ => true) u
  Emptied := fun a => (∀ u, a.flag u ≠ 0 → Stale (fun _ => true) u) ∧ a.wins = []
  view_can := fun _ _ => Screen.stack_can screen_can
  view_after := pile.view_after
  view_other := pile.view_other
  view_began := pile.view_began
  delay := fun hx => ⟨.inl hx.tree, hx⟩
  wipe := fun {cfg} i _ _ hx => by
    rw [stack_exec]
    exact ⟨.inl hx.tree, .inl hx.tree, (hx.wipe (.inl rfl)).2⟩
  empty := fun i s tr hx => by
    rw [stack_exec]
    exact ⟨.inr rfl, hx.2, rfl⟩
  home := fun i s tr hx => by
    rw [stack_exec]
    obtain ⟨hstale, hwins⟩ := hx
    have htree : Tree ((screen s).toStack.push .w1).wins := OnPath.push (.inr hwins) (.inl ⟨rfl, hwins⟩)
    exact ⟨.inl htree, htree, fun u hu => .inr (hstale u hu)⟩

def pathGuide : Guide path.toSight (fun _ => true) where
  stack := id
  Held := fun _ a => OnPath a.wins
  special := fun _ => false
  stack_after := fun _ _ _ => rfl
  stack_can := fun h => h
  draw := fun {w o x r} _ ho hx _ => by
    have hpath : OnPath (x.after o r).wins := hx.after fun v e => by rw [e] at ho; simp [drawMay, still] at ho
    exact ⟨hpath, hpath⟩
  keys := fun {w o x r} _ _ hallow hx _ => by
    have hpath : OnPath (x.after o r).wins := hx.after fun v e => (hallow.1 v e).2
    exact ⟨hpath, hpath, fun _ => .inl rfl⟩
  turn := fun h => h
  enter := fun hx _ _ _ _ => ⟨hx, hx⟩
  top := fun hx _ => ⟨hx, hx⟩
  leave := fun _ h => h
  special_draw := fun _ h => absurd h (by decide)

theorem pathService : Service path.toSight (fun _ => true) id fun a => Tree a.wins where
  stack_after := fun _ _ _ => rfl
  stack_can := fun h => h
  aside := fun {o x r} ho hx _ => by
    have hstill : still o = true := (Bool.and_eq_true_iff.mp (Bool.and_eq_true_iff.mp ho).2).2
    show OnPath (x.after o r).wins ∧ Tree (x.after o r).wins
    rw [Stack.after_still hstill]
    exact ⟨.inl hx, hx⟩
  clear := fun _ hx _ => ⟨.inl hx, hx⟩
  wipe := fun hx _ => ⟨.inl hx, hx, .inl rfl⟩
  push := fun {w x} hw _ hx _ => by
    have htree := OnPath.push (.inl hx) (placed_alert hx (v := w) (by rcases hw with rfl | rfl <;> rfl))
    exact ⟨.inl htree, htree⟩
  alert := fun {w x} hw hx => by
    have htree := OnPath.push (.inl hx) (placed_alert hx (v := w) (by rcases hw with rfl | rfl <;> rfl))
    refine Sight.Run.bind (R := fun _ y => y = x.push w) (Sight.Run.perform fun _ _ => ⟨.inl htree, rfl⟩)
      fun _ y hy => Sight.Run.perform fun _ _ => ?_
    subst hy
    exact ⟨.inl htree, htree, rfl, .inl rfl⟩

theorem path_pass (depth : Nat) (a : Stack) (ha : path.Rest a) : path.Run (passBody depth) a fun _ b => path.Rest b := by
  refine (pathService.run_pass (pathService.run_display depth fun n w b hb hw => ?_) a ⟨ha.tree, ha⟩).mono fun _ b hb => hb.2
  refine Sight.Run.bind (R := fun _ c => c = b) (Sight.Run.perform fun _ _ => ⟨.inl hb.1, rfl⟩) fun _ c hc => ?_
  subst hc
  exact (Guide.winFun_tidy (Γ := pathGuide) rfl n rfl (.inl hb.1) hb.2 hw).mono fun _ d hd => ⟨hd.2.tree, hd.2⟩

/-! ### In every run -/

theorem admits_path {depth : Nat} {cfg : Conf} {as : List Act} (h : (board passCalls depth).Admits JumpRule cfg as) :
    (board passCalls depth).Admits (fun cfg a => JumpRule cfg a ∧ path.Extra cfg a) cfg as := by
  induction as generalizing cfg with
  | nil => trivial
  | cons a as ih => exact ⟨⟨h.1, trivial⟩, ih h.2⟩

theorem run_path (depth : Nat) (flash : Nat → Nat) {as : List Act}
    (h : (board passCalls depth).Admits JumpRule (start flash) as) {cfg : Conf}
    (hcfg : cfg = (board passCalls depth).run (start flash) as) : OnPath cfg.state.wins ∧ TopDrawn cfg := by
  have hrest : path.Rest (path.view (boot flash) []) := by
    show Tidy _ (screen (boot flash)).toStack
    rw [screen_boot]
    exact ⟨rfl, fun u hu => absurd rfl hu⟩
  obtain ⟨hsafe, hidle⟩ := Pane.run_settled (fun a ha _ => path_pass depth a ha) hrest (.inl hrest.tree) (admits_path h) hcfg
  refine ⟨hsafe, fun hnone w hw => ?_⟩
  have hstale : Stale (fun _ => true) w → cfg.state.wins.head? = some w ∨ w = .w14 ∨ w = .w27 := fun hs => .inr hs.2
  rcases hidle hnone with ht | ht | ht
  · exact (ht.flag w hw).elim .inl hstale
  · exact hstale (ht.2 w hw)
  · exact hstale (ht.1 w hw)

/-- `JumptoMainWin` resets the stack while the display thread is idle. -/
structure Homed (cfg : Conf) : Prop where
  founded : Founded cfg
  resets : resetting .timer cfg.trace = true → lastOp .timer cfg.trace = some .guiWinInit ∧ cfg.task .lcd = none

theorem Homed.next {depth : Nat} {cfg : Conf} (h : Homed cfg) (a : Act) (hr : JumpRule cfg a) :
    Homed ((board passCalls depth).next cfg a) := by
  rcases System.next_cases (M := board passCalls depth) cfg a with hsame | ⟨t, c, rfl, ht, hready⟩ | ⟨t, i, c, o, k, rfl, ht⟩
  · rw [hsame]
    exact h
  · refine ⟨founded_next cfg _ h.founded trivial, fun hreset => ?_⟩
    rw [System.next_start ht hready] at hreset ⊢
    obtain ⟨hlast, hidle⟩ := h.resets hreset
    have htimer : t ≠ .timer := by
      rintro rfl
      have hhead := h.founded.next .timer hreset
      rw [Config.head, ht] at hhead
      cases hhead
    have hlcd : t ≠ .lcd := fun e => (hr e).2 hlast
    exact ⟨(lastOp_began_of_ne htimer c _).trans hlast, (Function.update_of_ne (Ne.symm hlcd) _ _).trans hidle⟩
  · have hhead : cfg.head t = some o := by simp [Config.head, ht, Prog.head]
    have hwhole : MainWinWhole cfg (.step t i) := by
      rintro rfl
      by_contra hn
      have hidle := (h.resets (by simpa using hn)).2
      rw [ht] at hidle
      cases hidle
    refine ⟨founded_next cfg _ h.founded hwhole, fun hreset => ?_⟩
    rw [System.next_step ht] at hreset ⊢
    by_cases htimer : t = .timer
    · subst htimer
      by_cases hinit : o = .guiWinInit
      · -- the reset begins, so no pass of the display thread is under way
        subst hinit
        have hidle : cfg.task .lcd = none := Option.isNone_iff_eq_none.mp (hr ⟨rfl, by rw [hhead]; rfl⟩)
        exact ⟨lastOp_did_self _ _ _ _, hidle⟩
      · have hpush : o ≠ .guiWinAdd .w1 := by
          rintro rfl
          simp [resetting] at hreset
        rw [resetting_did hinit hpush] at hreset
        exact absurd (Option.some.inj (hhead.symm.trans (h.founded.next _ hreset))) hpush
    · rw [resetting_did_of_ne htimer] at hreset
      obtain ⟨hlast, hidle⟩ := h.resets hreset
      have hlcd : t ≠ .lcd := by
        rintro rfl
        rw [ht] at hidle
        cases hidle
      exact ⟨(lastOp_did_of_ne htimer _ _ _).trans hlast, (Function.update_of_ne (Ne.symm hlcd) _ _).trans hidle⟩

/-- Only a thread that is about to push the main menu leaves the stack empty. -/
theorem empty_resetting (depth : Nat) (flash : Nat → Nat) {as : List Act}
    (h : (board passCalls depth).Admits JumpRule (start flash) as) {cfg : Conf}
    (hcfg : cfg = (board passCalls depth).run (start flash) as) (hempty : cfg.state.wins = []) :
    ∃ t, resetting t cfg.trace = true ∧ cfg.head t = some (.guiWinAdd .w1) := by
  have hboot : Homed (start flash) := ⟨founded_start flash, fun e => absurd e Bool.false_ne_true⟩
  have hend := System.run_invariant Homed (fun _ a hg hr => hg.next a hr) hboot h
  rw [← hcfg] at hend
  obtain ⟨t, ht⟩ := hend.founded.empty hempty
  exact ⟨t, ht, hend.founded.next t ht⟩

/-- In every run in which `JumptoMainWin` does not fall into a pass of the display thread, the
windows on the stack are a way through the menus at all times but while a thread rebuilds it,
and between two passes no other window than the one on top is drawn. -/
theorem stack_is_path (depth : Nat) (flash : Nat → Nat) (as : List Act)
    (h : (board passCalls depth).Admits JumpRule (start flash) as) :
    KeepsPath ((board passCalls depth).run (start flash) as) ∧ TopDrawn ((board passCalls depth).run (start flash) as) := by
  obtain ⟨hpath, hdrawn⟩ := run_path depth flash h rfl
  exact ⟨hpath.imp_right fun hnil => ⟨hnil, empty_resetting depth flash h rfl hnil⟩, hdrawn⟩

/-- With a long press the settings are opened, and with K0 their last page. -/
def toLastPage : List Act := lcdPass ++ holdK2 ++ lcdPass ++ press .k0 ++ lcdPass ++ lcdPass

/-- Its first entry asks for the password, which is 3. -/
def givePassword : List Act :=
  press .k2 ++ lcdPass ++ lcdPass ++ press .k1 ++ lcdPass ++ press .k1 ++ lcdPass ++ press .k1 ++ lcdPass ++
    press .k2 ++ lcdPass

/-- The reading is on the screen when the battery runs low. -/
def readingCovered : List Act := toLastPage ++ givePassword ++ lcdPass ++ batteryReads 2000 ++ lcdPass

theorem stack_is_path_covered :
    KeepsPath ((board passCalls 2).run (start fun _ => 0) readingCovered) ∧
      TopDrawn ((board passCalls 2).run (start fun _ => 0) readingCovered) :=
  stack_is_path 2 (fun _ => 0) readingCovered (by decide +kernel)

/-- In these runs the window with the reading of the sensor lies over the password window, over
the settings menu, over the main menu; windows 22 and 24 are never on the stack. -/
theorem reading_behind_password (depth : Nat) (flash : Nat → Nat) (as : List Act)
    (h : (board passCalls depth).Admits JumpRule (start flash) as) :
    (.w23 ∈ ((board passCalls depth).run (start flash) as).state.wins →
      [.w23, .w21, .w14, .w1] <:+ ((board passCalls depth).run (start flash) as).state.wins) ∧
    .w22 ∉ ((board passCalls depth).run (start flash) as).state.wins ∧
    .w24 ∉ ((board passCalls depth).run (start flash) as).state.wins := by
  rcases (run_path depth flash h rfl).1 with htree | hnil
  · refine ⟨fun hmem => ?_, htree.never (.inl rfl), htree.never (.inr rfl)⟩
    obtain ⟨rest, hsuffix, hway⟩ := htree.suffix hmem
    rw [hway.reading] at hsuffix
    exact hsuffix
  · rw [hnil]
    exact ⟨fun hmem => absurd hmem List.not_mem_nil, List.not_mem_nil, List.not_mem_nil⟩

/-- The alert lies over window 23, and the password under it. -/
theorem reading_behind_password_covered :
    ((board passCalls 2).run (start fun _ => 0) readingCovered).state.wins.take 2 = [.w26, .w23] ∧
    [.w23, .w21, .w14, .w1] <:+ ((board passCalls 2).run (start fun _ => 0) readingCovered).state.wins :=
  ⟨by decide +kernel, (reading_behind_password 2 (fun _ => 0) readingCovered (by decide +kernel)).1 (by decide +kernel)⟩

end Backwash.Lcd
