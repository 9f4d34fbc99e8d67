import Backwash.Lcd.Walk
import Backwash.Motor.Cycle
import Mathlib.Data.List.Basic

/-! The size of the window stack.

The menus are at most six deep, but a request or an alert pushes its window over
whatever is shown. What keeps these windows from piling up is that each of them
would be there once; the `FirstFlag`s that are to see to this are cleared by every
alert, and the alerts themselves are pushed without asking. -/
namespace Backwash.Lcd
open Concurrent Prog Firmware Motor

/-! ### The property -/

/-- `GuiWinAdd` finds room for a window. -/
def Fits (cfg : Conf) : Prop :=
  ∀ t w, cfg.head t = some (.guiWinAdd w) → cfg.state.wins.length < guiWinManageNum

/-- The window of a request or an alert is not pushed again while it is on the stack. -/
def onceMay (s : Device) : Op → Bool
  | .guiWinAdd w => menu w || !s.wins.contains w
  | _ => true

def OnceRule (cfg : Conf) : Act → Prop
  | .step t _ => t = .lcd → (cfg.head t).all (onceMay cfg.state) = true
  | .start _ _ => True

instance (cfg : Conf) : ∀ a, Decidable (OnceRule cfg a)
  | .step _ _ => inferInstanceAs (Decidable (_ → _))
  | .start _ _ => inferInstanceAs (Decidable True)

/-! ### How deep the menus are -/

/-- How many menus there can be from a window down. -/
def rank : Win → Nat
  | .w1 => 1
  | .w14 => 2
  | .w15 | .w16 | .w17 | .w18 | .w19 | .w20 | .w21 => 3
  | .w2 | .w4 | .w5 | .w6 | .w7 | .w23 => 4
  | .w8 | .w12 | .w13 => 5
  | _ => 6

theorem rank_le (w : Win) : rank w ≤ 6 := by cases w <;> decide

/-- A menu lies over a menu of lower rank. -/
theorem covers_menu {u l : Win} (hu : menu u = true) (h : covers u l = true) : menu l = true ∧ rank l < rank u := by
  cases u <;> first | exact absurd hu Bool.false_ne_true | exact absurd h Bool.false_ne_true | skip
  all_goals cases l <;> first | exact absurd h Bool.false_ne_true | exact ⟨rfl, by decide⟩

theorem rank_alert {w : Win} (h : menu w = false) : w ∈ [.w3, .w25, .w26, .w27] ∧ rank w = 6 := by
  cases w <;> first | exact absurd h.symm Bool.false_ne_true | decide

def alerts (ws : List Win) : List Win := ws.filter fun w => !menu w

theorem Tree.menus_le {ws : List Win} (h : Tree ws) {w : Win} (hw : ws.head? = some w) :
    (ws.filter menu).length ≤ rank w := by
  induction ws generalizing w with
  | nil => exact h.elim
  | cons u rest ih =>
    obtain rfl : u = w := by simpa using hw
    cases rest with
    | nil =>
      obtain rfl : u = .w1 := h
      decide
    | cons v rest =>
      have hrest := ih h.2 rfl
      cases hm : menu u with
      | true =>
        have hrank := (covers_menu hm h.1).2
        rw [List.filter_cons_of_pos hm, List.length_cons]
        omega
      | false =>
        have hv := rank_le v
        rw [List.filter_cons_of_neg (by simp [hm]), (rank_alert hm).2]
        omega

/-- Where no request or alert has two windows there are at most ten in all. -/
theorem Tree.length_le {ws : List Win} (h : Tree ws) (hn : (alerts ws).Nodup) : ws.length ≤ 10 := by
  have hmenus : (ws.filter menu).length ≤ 6 := by
    obtain ⟨w, hw⟩ := h.top
    exact Nat.le_trans (h.menus_le hw) (rank_le w)
  have halerts : (alerts ws).length ≤ 4 := by
    have hsub : alerts ws ⊆ [.w3, .w25, .w26, .w27] := fun w hw =>
      (rank_alert (by simpa using (List.mem_filter.mp hw).2)).1
    exact hn.length_le_of_subset hsub
  have hsplit : ws.length = (ws.filter menu).length + (alerts ws).length := List.length_eq_length_filter_add menu
  omega

/-! ### The pane -/

/-- A tree, or nothing while the stack is reset, and no alert twice. -/
def Piled (a : Stack) : Prop := (Tree a.wins ∨ a.wins = []) ∧ (alerts a.wins).Nodup

theorem Piled.fits {a : Stack} (h : Piled a) : a.wins.length < guiWinManageNum := by
  rcases h.1 with ht | he
  · exact Nat.lt_of_le_of_lt (ht.length_le h.2) (by decide)
  · rw [he]
    decide

theorem Piled.congr {a b : Stack} (h : Piled a) (hw : b.wins = a.wins) : Piled b := by
  unfold Piled
  rw [hw]
  exact h

theorem Piled.push {a : Stack} {v : Win} (h : Piled a) (hplace : Placed a v) (hv : menu v = true ∨ v ∉ a.wins) :
    Tree (a.push v).wins ∧ Piled (a.push v) := by
  have hpush : (a.push v).wins = v :: a.wins := by
    simp only [Stack.push]
    rw [if_neg (Nat.not_le.mpr h.fits)]
  have htree : Tree (v :: a.wins) := by
    rcases hplace with ⟨rfl, he⟩ | ⟨u, hu, hover⟩
    · rw [he]
      rfl
    · refine Tree.cons (h.1.resolve_right fun e => ?_) hu hover
      rw [e] at hu
      cases hu
  unfold Piled
  rw [hpush]
  refine ⟨htree, .inl htree, ?_⟩
  by_cases hm : menu v = true
  · simpa [alerts, hm] using h.2
  · have hnot : v ∉ alerts a.wins := fun e => hv.resolve_left hm (List.mem_filter.mp e).1
    simpa [alerts, hm] using List.nodup_cons.mpr ⟨hnot, h.2⟩

theorem Piled.pop {a : Stack} (h : Piled a) : Piled a.pop := by
  simp only [Stack.pop]
  split
  · exact h
  · next hlen =>
    rcases hws : a.wins with _ | ⟨u, _ | ⟨v, rest⟩⟩
    · simp [hws] at hlen
    · simp [hws] at hlen
    · have ht : Tree (u :: v :: rest) := by
        rw [← hws]
        exact h.1.resolve_right (by rw [hws]; simp)
      have hn := h.2
      rw [hws] at hn
      exact ⟨.inl ht.2, hn.sublist (List.Sublist.filter _ (List.sublist_cons_self _ _))⟩

theorem Piled.after {o : Op} {r : Res o} {a : Stack} (h : Piled a) (hplace : ∀ v, o = .guiWinAdd v → Placed a v)
    (hv : ∀ v, o = .guiWinAdd v → menu v = true ∨ v ∉ a.wins) : Piled (a.after o r) := by
  cases o with
  | store v n => cases v <;> exact h.congr rfl
  | semTake k => cases k <;> exact h.congr rfl
  | guiWinInit => exact ⟨.inr rfl, List.nodup_nil⟩
  | guiWinAdd v => exact (h.push (hplace v rfl) (hv v rfl)).2
  | guiWinDeleteTop => exact h.pop
  | _ => exact h.congr rfl

def pile : Pane Stack where
  can := fun o a r => a.can o r ∧ ∀ v, o = .guiWinAdd v → menu v = true ∨ v ∉ a.wins
  after := Stack.after
  Safe := fun a => a.wins.length < guiWinManageNum
  view := fun s _ => (screen s).toStack
  Extra := OnceRule
  Rest := fun a => Piled a ∧ Tidy (fun _ => true) a
  Wiped := fun a => Piled a ∧ ∀ u, a.flag u ≠ 0 → Stale (fun _ => true) u
  Emptied := fun a => (Piled a ∧ ∀ u, a.flag u ≠ 0 → Stale (fun _ => true) u) ∧ a.wins = []
  view_can := fun {cfg i o} hr hhead => by
    refine ⟨Screen.stack_can screen_can, fun v e => ?_⟩
    have hmay : onceMay cfg.state o = true := by simpa [hhead] using hr rfl
    rw [e] at hmay
    simpa [onceMay, screen] using hmay
  view_after := fun _ _ _ => stack_exec
  view_other := fun _ _ _ ht hmay hh => by rw [screen_other ht hmay hh]
  view_began := fun t c s tr => by rw [screen_enter]
  delay := fun hx => ⟨hx.1.fits, hx⟩
  wipe := fun {cfg} i _ _ hx => by
    rw [stack_exec]
    exact ⟨hx.1.fits, hx.1.congr rfl, (hx.2.wipe (.inl rfl)).2⟩
  empty := fun i s tr hx => by
    rw [stack_exec]
    have hpiled : Piled {(screen s).toStack with wins := []} := ⟨.inr rfl, List.nodup_nil⟩
    exact ⟨hpiled.fits, ⟨hpiled, hx.2⟩, rfl⟩
  home := fun i s tr hx => by
    rw [stack_exec]
    obtain ⟨⟨hp, hstale⟩, hwins⟩ := hx
    obtain ⟨htree, hpiled⟩ := hp.push (v := .w1) (.inl ⟨rfl, hwins⟩) (.inl rfl)
    exact ⟨hpiled.fits, hpiled, htree, fun u hu => .inr (hstale u hu)⟩

/-! ### Windows and requests -/

def pileGuide : Guide pile.toSight (fun _ => true) where
  stack := id
  Held := fun _ => Piled
  special := fun _ => false
  stack_after := fun _ _ _ => rfl
  stack_can := fun h => h.1
  draw := fun {w o x r} _ ho hx hcan => by
    have hpiled : Piled (x.after o r) :=
      hx.after (fun v e => by rw [e] at ho; simp [drawMay, still] at ho) hcan.2
    exact ⟨hpiled.fits, hpiled⟩
  keys := fun {w o x r} _ _ hallow hx hcan => by
    have hpiled : Piled (x.after o r) := hx.after (fun v e => (hallow.1 v e).2) hcan.2
    exact ⟨hpiled.fits, hpiled, fun _ => .inl rfl⟩
  turn := fun h => h
  enter := fun hx _ _ _ _ => ⟨hx.fits, hx⟩
  top := fun hx _ => ⟨hx.fits, hx⟩
  leave := fun _ h => h
  special_draw := fun _ h => absurd h (by decide)

/-- An alert may lie over any window. -/
theorem placed_alert {a : Stack} {v : Win} (h : Tree a.wins) (hv : menu v = false) : Placed a v := by
  obtain ⟨u, hu⟩ := h.top
  exact .inr ⟨u, hu, by cases v <;> first | rfl | exact absurd hv.symm Bool.false_ne_true⟩

theorem pileService : Service pile.toSight (fun _ => true) id fun a => Tree a.wins ∧ Piled a where
  stack_after := fun _ _ _ => rfl
  stack_can := fun h => h.1
  aside := fun {o x r} ho hx _ => by
    have hstill : still o = true := (Bool.and_eq_true_iff.mp (Bool.and_eq_true_iff.mp ho).2).2
    show (x.after o r).wins.length < _ ∧ Tree (x.after o r).wins ∧ Piled (x.after o r)
    rw [Stack.after_still hstill]
    exact ⟨hx.2.fits, hx⟩
  clear := fun _ hx _ => ⟨hx.2.fits, hx.1, hx.2.congr rfl⟩
  wipe := fun hx _ => ⟨hx.2.fits, ⟨hx.1, hx.2.congr rfl⟩, .inl rfl⟩
  push := fun {w x} hw _ hx hcan => by
    have hplace := placed_alert hx.1 (v := w) (by rcases hw with rfl | rfl <;> rfl)
    obtain ⟨htree, hpiled⟩ := hx.2.push hplace (hcan.2 w rfl)
    exact ⟨hpiled.fits, htree, hpiled⟩
  alert := fun {w x} hw hx => by
    have hplace := placed_alert hx.1 (v := w) (by rcases hw with rfl | rfl <;> rfl)
    refine Sight.Run.bind (R := fun _ y => y = x.push w ∧ Tree y.wins ∧ Piled y) (Sight.Run.perform fun _ hcan => ?_)
      fun _ y hy => Sight.Run.perform fun _ _ => ?_
    · obtain ⟨htree, hpiled⟩ := hx.2.push hplace (hcan.2 w rfl)
      exact ⟨hpiled.fits, rfl, htree, hpiled⟩
    · obtain ⟨rfl, htree, hpiled⟩ := hy
      exact ⟨hpiled.fits, ⟨htree, hpiled.congr rfl⟩, rfl, .inl rfl⟩

theorem pile_pass (depth : Nat) (a : Stack) (ha : pile.Rest a) : pile.Run (passBody depth) a fun _ b => pile.Rest b := by
  refine (pileService.run_pass (pileService.run_display depth fun n w b hb hw => ?_) a ⟨⟨ha.2.tree, ha.1⟩, ha.2⟩).mono
    fun _ b hb => ⟨hb.1.2, hb.2⟩
  refine Sight.Run.bind (R := fun _ c => c = b) (Sight.Run.perform fun _ _ => ⟨hb.1.2.fits, rfl⟩) fun _ c hc => ?_
  subst hc
  exact (Guide.winFun_tidy (Γ := pileGuide) rfl n rfl hb.1.2 hb.2 hw).mono fun _ d hd => ⟨⟨hd.2.tree, hd.1⟩, hd.2⟩

/-- The stack has room for every window, in a run that keeps to the rule. -/
theorem stack_fits (depth : Nat) (flash : Nat → Nat) (as : List Act)
    (h : (board passCalls depth).Admits (fun cfg a => JumpRule cfg a ∧ OnceRule cfg a) (start flash) as) :
    Fits ((board passCalls depth).run (start flash) as) := by
  have hview : pile.view (boot flash) [] = Screen.blank.toStack := by
    show (screen (boot flash)).toStack = _
    rw [screen_boot]
  have hpiled : Piled Screen.blank.toStack := ⟨.inl rfl, by decide⟩
  have hrest : pile.Rest (pile.view (boot flash) []) := by
    rw [hview]
    exact ⟨hpiled, rfl, fun u hu => absurd rfl hu⟩
  have hsafe : pile.Safe (pile.view (boot flash) []) := by
    rw [hview]
    exact hpiled.fits
  have hfits := (Pane.run_settled (fun a ha _ => pile_pass depth a ha) hrest hsafe h rfl).1
  exact fun _ _ _ => hfits

/-- The battery sinks and recovers; nobody is there. -/
def unattended : List Act := lcdPass ++ batteryReads 2000 ++ lcdPass ++ lcdPass ++ batteryReads 2500 ++ lcdPass ++ lcdPass

theorem stack_fits_unattended :
    (board passCalls 2).Admits (fun cfg a => JumpRule cfg a ∧ OnceRule cfg a) (start fun _ => 0) unattended ∧
    Fits ((board passCalls 2).run (start fun _ => 0) unattended) :=
  ⟨by decide +kernel, stack_fits 2 (fun _ => 0) unattended (by decide +kernel)⟩

/-- The water flow asks for a backwash, which is refused because the battery is low. -/
def refusedPass : List Act := .start .irq .waterFlow :: lcdPass

/-- Every refused backwash leaves two windows behind: after seven of them the eighth
finds no room. -/
theorem not_fits_refused :
    ¬ Fits ((board passCalls 2).run (start fun _ => 1) (batteryReads 2000 ++ lcdPass ++
      (List.replicate 7 refusedPass).flatten ++ .start .irq .waterFlow :: alone .lcdTask {} 30)) := by
  intro h
  exact absurd (h .lcd .w3 (by decide +kernel)) (by decide +kernel)

end Backwash.Lcd
