import Backwash.Lcd.Walk
import Backwash.Motor.Cycle

/-! Windows that become visible.

A window draws itself when its function runs with its `FirstFlag` clear. Each
window function clears its own flag as it leaves; a request or an alert clears all
flags with a `memset` that ends one short of the array. -/
namespace Backwash.Lcd
open Concurrent Prog Firmware Motor

/-! ### The property -/

/-- The window was pushed and its function has not been dispatched since. -/
def due : Trace → Win → Bool
  | [], _ => false
  | .did _ (.guiWinAdd v) _ :: tr, w => v == w || due tr w
  | .did _ (.mark (.winFun v)) _ :: tr, w => v != w && due tr w
  | _ :: tr, w => due tr w

/-- The window whose function the display thread has just dispatched, if it is the
first time since its push. -/
def dispatched : Trace → Option Win
  | [] => none
  | .did .lcd (.mark (.winFun w)) _ :: tr => if due tr w then some w else none
  | .did .lcd _ _ :: _ => none
  | _ :: tr => dispatched tr

/-- Between two passes only the window on top has its flag set, and a window that was
pushed is dispatched with its flag clear. -/
def Redrawn (cfg : Conf) : Prop :=
  (cfg.task .lcd = none → ∀ w, cfg.state.wins.head? ≠ some w → cfg.state.vars (.firstFlag w) = 0) ∧
  ∀ w, dispatched cfg.trace = some w → cfg.state.vars (.firstFlag w) = 0

/-! ### The rule -/

/-- The flags are cleared while that of window 27 is clear, and window 1 does not take
K2 together with the long press it opens the settings with. -/
def RedrawRule (cfg : Conf) : Act → Prop
  | .step t _ =>
    (cfg.head t = some .memsetFirstFlag → cfg.state.vars (.firstFlag .w27) = 0) ∧
    (t = .lcd ∧ cfg.head t = some (.guiWinAdd .w14) → cfg.state.taken .k2 = none)
  | .start _ _ => True

instance (cfg : Conf) : ∀ a, Decidable (RedrawRule cfg a)
  | .step _ _ => inferInstanceAs (Decidable (_ ∧ _))
  | .start _ _ => inferInstanceAs (Decidable True)

/-! ### The view -/

structure Redraw where
  stack : Stack
  due : Win → Bool
  dispatched : Option Win

def dueAfter (o : Op) (d : Win → Bool) : Win → Bool :=
  match o with
  | .guiWinAdd v => fun w => v == w || d w
  | .mark (.winFun v) => fun w => v != w && d w
  | _ => d

def dispatchedAfter (o : Op) (d : Win → Bool) : Option Win :=
  match o with
  | .mark (.winFun w) => if d w then some w else none
  | _ => none

namespace Redraw

def after (o : Op) (r : Res o) (x : Redraw) : Redraw :=
  ⟨x.stack.after o r, dueAfter o x.due, dispatchedAfter o x.due⟩

/-- A window that is due is not drawn. -/
def Undrawn (x : Redraw) : Prop := ∀ w, x.due w = true → x.stack.flag w = 0

/-- The operation is neither a push nor a dispatch. -/
def plain : Op → Bool
  | .guiWinAdd _ | .mark (.winFun _) => false
  | _ => true

variable {o : Op} {x : Redraw}

theorem after_plain (h : plain o = true) (r : Res o) :
    (x.after o r).due = x.due ∧ (x.after o r).dispatched = none := by
  cases o with
  | guiWinAdd v => cases h
  | mark m => cases m <;> first | exact ⟨rfl, rfl⟩ | cases h
  | _ => exact ⟨rfl, rfl⟩

/-- An operation that neither pushes nor sets a flag keeps what is due undrawn. -/
theorem Undrawn.keep (h : x.Undrawn) (ho : plain o = true) (r : Res o)
    (hf : ∀ u, (x.stack.after o r).flag u ≠ 0 → x.stack.flag u ≠ 0 ∨ x.due u = false) : (x.after o r).Undrawn := by
  intro w hw
  rw [(after_plain ho r).1] at hw
  by_contra hne
  rcases hf w hne with e | e
  · exact e (h w hw)
  · rw [hw] at e
    cases e

theorem Undrawn.push (h : x.Undrawn) {v : Win} (hv : x.stack.flag v = 0) : (x.after (.guiWinAdd v) ()).Undrawn := by
  intro w hw
  rcases Bool.or_eq_true_iff.mp hw with e | e
  · obtain rfl : v = w := by simpa using e
    exact hv
  · exact h w e

end Redraw

/-! ### The pane -/

def redrawView (s : Device) (tr : Trace) : Redraw := ⟨(screen s).toStack, due tr, dispatched tr⟩

section
variable {t : Thread} {o : Op} {i : Input} {s : Device} {tr : Trace}

theorem due_did : due (.did t o i :: tr) = dueAfter o (due tr) := by
  funext w
  cases o with
  | mark m => cases m <;> rfl
  | _ => rfl

theorem dispatched_did : dispatched (.did .lcd o i :: tr) = dispatchedAfter o (due tr) := by
  cases o with
  | mark m => cases m <;> rfl
  | _ => rfl

theorem redraw_after :
    redrawView (exec .lcd o i s).1 (.did .lcd o i :: tr) = (redrawView s tr).after o (exec .lcd o i s).2 := by
  unfold redrawView Redraw.after
  rw [stack_exec, due_did, dispatched_did]

theorem redraw_other (ht : t ≠ .lcd) (hmay : may t o = true) (hh : homing o = false) :
    redrawView (exec t o i s).1 (.did t o i :: tr) = redrawView s tr := by
  have hplain : Redraw.plain o = true := by
    cases o with
    | guiWinAdd w => cases hh
    | mark m => cases m <;> first | rfl | (cases t <;> first | exact absurd rfl ht | cases hmay)
    | _ => rfl
  have hdue : due (.did t o i :: tr) = due tr := by
    rw [due_did]
    cases o with
    | guiWinAdd w => cases hplain
    | mark m => cases m <;> first | rfl | cases hplain
    | _ => rfl
  have hdis : dispatched (.did t o i :: tr) = dispatched tr := by
    cases t <;> first | exact absurd rfl ht | rfl
  unfold redrawView
  rw [screen_other ht hmay hh, hdue, hdis]

/-- What a push by the timer thread makes of the view. -/
theorem redraw_home : redrawView (exec .timer o i s).1 (.did .timer o i :: tr) =
    {(redrawView s tr).after o (exec .timer o i s).2 with dispatched := dispatched tr} := by
  unfold redrawView Redraw.after
  rw [stack_exec, due_did]
  rfl

end

/-- Nothing is drawn. -/
def Redraw.Blank (x : Redraw) : Prop := ∀ w, x.stack.flag w = 0

def redraw : Pane Redraw where
  can := fun o x r => x.stack.can o r ∧ (o = .memsetFirstFlag → x.stack.flag .w27 = 0) ∧
    (o = .guiWinAdd .w14 → x.stack.took .k2 = false)
  after := Redraw.after
  Safe := fun x => ∀ w, x.dispatched = some w → x.stack.flag w = 0
  view := redrawView
  Extra := RedrawRule
  Rest := fun x => x.Undrawn ∧ Tidy (fun _ => false) x.stack
  Wiped := Redraw.Blank
  Emptied := fun x => x.Blank ∧ x.stack.wins = []
  view_can := fun {cfg i o} hr hhead => by
    refine ⟨Screen.stack_can screen_can, fun e => hr.1 (by rw [hhead, e]), fun e => ?_⟩
    have htaken := hr.2 ⟨rfl, by rw [hhead, e]⟩
    simp [redrawView, screen, htaken]
  view_after := fun _ _ _ => redraw_after
  view_other := fun _ _ _ => redraw_other
  view_began := fun t c s tr => by
    unfold redrawView
    rw [screen_enter]
    rfl
  delay := fun hx => ⟨fun _ e => absurd e (by simp [Redraw.after, dispatchedAfter]), hx⟩
  wipe := fun {cfg} i hr hhead _ => by
    rw [redraw_home]
    have hblank : ∀ w, ((redrawView cfg.state cfg.trace).stack.wipe).flag w = 0 := Stack.wipe_flag (hr.1 hhead)
    exact ⟨fun w _ => hblank w, hblank⟩
  empty := fun i s tr hx => by
    rw [redraw_home]
    exact ⟨fun w _ => hx w, hx, rfl⟩
  home := fun i s tr hx => by
    rw [redraw_home]
    obtain ⟨hflag, hwins⟩ := hx
    refine ⟨fun w _ => hflag w, fun w _ => hflag w, ?_, fun u hu => absurd (hflag u) hu⟩
    show Tree ((redrawView s tr).stack.push .w1).wins
    rw [Stack.wins_home hwins]
    rfl

/-! ### Windows and requests -/

theorem Redraw.safe_plain {o : Op} {x : Redraw} {r : Res o} (h : plain o = true) : redraw.Safe (x.after o r) :=
  fun w e => absurd ((after_plain h r).2.symm.trans e) (by simp)

theorem Redraw.safe_push {v : Win} {x : Redraw} : redraw.Safe (x.after (.guiWinAdd v) ()) :=
  fun w e => absurd (show (none : Option Win) = some w from e) (by simp)

theorem plain_winMay {w : Win} {o : Op} (h : winMay w o = true) (hp : ∀ v, o ≠ .guiWinAdd v) : Redraw.plain o = true := by
  cases o with
  | guiWinAdd v => exact absurd rfl (hp v)
  | mark m => cases m <;> first | rfl | simp [winMay, ownMay] at h
  | _ => rfl

/-- A dispatch finds a window that is due undrawn. -/
theorem Redraw.dispatch {x : Redraw} (h : x.Undrawn) (w : Win) :
    redraw.Safe (x.after (.mark (.winFun w)) ()) ∧
    (x.after (.mark (.winFun w)) ()).Undrawn ∧ (x.after (.mark (.winFun w)) ()).due w = false := by
  refine ⟨fun u e => ?_, fun u e => ?_, ?_⟩
  · have hif : (if x.due w then some w else none) = some u := e
    split at hif
    · next hdue =>
      obtain rfl : w = u := Option.some.inj hif
      exact h w hdue
    · cases hif
  · exact h u (Bool.and_eq_true_iff.mp e).2
  · simp [Redraw.after, dueAfter]

def redrawGuide : Guide redraw.toSight (fun _ => false) where
  stack := Redraw.stack
  Held := fun
    | .draw w => fun x => x.Undrawn ∧ x.due w = false
    | .keys _ => Redraw.Undrawn
  special := fun _ => false
  stack_after := fun _ _ _ => rfl
  stack_can := fun h => h.1
  draw := fun {w o x r} _ ho hx _ => by
    obtain ⟨hwin, hdraw⟩ := Bool.and_eq_true_iff.mp ho
    have hplain : Redraw.plain o = true := plain_winMay hwin fun v e => by rw [e] at hdraw; cases hdraw
    refine ⟨Redraw.safe_plain hplain, hx.1.keep hplain r fun u hu => ?_, ?_⟩
    · rcases Stack.flag_after hu with e | ⟨n, hn, rfl⟩
      · exact .inl e
      · obtain rfl : u = w := by
          have := (Bool.and_eq_true_iff.mp hwin).2
          simpa [ownMay] using (Bool.and_eq_true_iff.mp this).1
        exact .inr hx.2
    · show (x.after o r).due w = false
      rw [(Redraw.after_plain hplain r).1]
      exact hx.2
  keys := fun {w o x r} _ ho hallow hx hcan => by
    obtain ⟨hwin, hkeys⟩ := Bool.and_eq_true_iff.mp ho
    refine (and_assoc.mp ⟨?_, fun e => .inr (hcan.2.2 e)⟩)
    by_cases hp : ∃ v, o = .guiWinAdd v
    · obtain ⟨v, rfl⟩ := hp
      exact ⟨Redraw.safe_push, hx.push ((hallow.1 v rfl).1.resolve_left (by decide))⟩
    · have hplain : Redraw.plain o = true := plain_winMay hwin fun v e => hp ⟨v, e⟩
      refine ⟨Redraw.safe_plain hplain, hx.keep hplain r fun u hu => ?_⟩
      rcases Stack.flag_after hu with e | ⟨n, hn, rfl⟩
      · exact .inl e
      · exact absurd (by simpa using hkeys) hn
  turn := fun h => h.1
  enter := fun hx _ _ _ _ => Redraw.dispatch hx _
  top := fun hx _ => ⟨Redraw.safe_plain rfl, hx⟩
  leave := fun _ h => h
  special_draw := fun _ h => absurd h (by decide)

theorem redrawService : Service redraw.toSight (fun _ => false) Redraw.stack Redraw.Undrawn where
  stack_after := fun _ _ _ => rfl
  stack_can := fun h => h.1
  aside := fun {o x r} ho hx _ => by
    obtain ⟨hmay, hquiet⟩ := Bool.and_eq_true_iff.mp ho
    have hstill : still o = true := (Bool.and_eq_true_iff.mp hquiet).2
    have hplain : Redraw.plain o = true := by
      cases o with
      | guiWinAdd v => cases hstill
      | mark m => cases m <;> first | rfl | simp [taskMay, openMay, requestMay] at hmay
      | _ => rfl
    refine ⟨Redraw.safe_plain hplain, hx.keep hplain r fun u hu => ?_⟩
    rw [Stack.after_still hstill] at hu
    exact .inl hu
  clear := fun {w x} _ hx _ => by
    refine ⟨Redraw.safe_plain rfl, hx.keep rfl () fun u hu => ?_⟩
    rcases Stack.flag_after hu with e | ⟨n, hn, e⟩
    · exact .inl e
    · cases e
      exact absurd rfl hn
  wipe := fun {x} hx hcan => by
    refine ⟨Redraw.safe_plain rfl, hx.keep rfl () fun u hu => ?_, .inr (hcan.2.1 rfl)⟩
    exact absurd (Stack.wipe_flag (hcan.2.1 rfl) u) hu
  push := fun _ hw hx _ => ⟨Redraw.safe_push, hx.push hw⟩
  alert := fun {w x} _ _ => by
    refine Sight.Run.bind (R := fun _ y => y.stack = x.stack.push w)
      (Sight.Run.perform fun _ _ => ⟨Redraw.safe_push, rfl⟩) fun _ y hy => Sight.Run.perform fun _ hcan => ?_
    have h27 : y.stack.flag .w27 = 0 := hcan.2.1 rfl
    refine ⟨Redraw.safe_plain rfl, fun u _ => Stack.wipe_flag h27 u, congrArg Stack.wipe hy, .inr ?_⟩
    rw [hy] at h27
    exact h27

theorem redraw_pass (depth : Nat) (x : Redraw) (hx : redraw.Rest x) :
    redraw.Run (passBody depth) x fun _ y => redraw.Rest y := by
  refine redrawService.run_pass (redrawService.run_display depth fun n w y hy hw => ?_) x hx
  refine Sight.Run.bind (R := fun _ z => redrawGuide.Held (.draw w) z ∧ z.stack = y.stack)
    (Sight.Run.perform fun _ _ => ?_) fun _ z hz => ?_
  · obtain ⟨hsafe, hheld⟩ := Redraw.dispatch hy.1 w
    exact ⟨hsafe, hheld, rfl⟩
  · have htidy : Tidy (fun _ => false) z.stack := by rw [hz.2]; exact hy.2
    exact Guide.winFun_tidy rfl n rfl hz.1 htidy (by rw [← hw, ← hz.2]; rfl)

/-- A window that becomes visible is redrawn, in a run that keeps to the rule. -/
theorem visible_redrawn (depth : Nat) (flash : Nat → Nat) (as : List Act)
    (h : (board passCalls depth).Admits (fun cfg a => JumpRule cfg a ∧ RedrawRule cfg a) (start flash) as) :
    Redrawn ((board passCalls depth).run (start flash) as) := by
  have hview : redraw.view (boot flash) [] = ⟨Screen.blank.toStack, fun _ => false, none⟩ := by
    show redrawView (boot flash) [] = _
    unfold redrawView
    rw [screen_boot]
    rfl
  have hrest : redraw.Rest (redraw.view (boot flash) []) := by
    rw [hview]
    exact ⟨fun w e => absurd e Bool.false_ne_true, rfl, fun u hu => absurd rfl hu⟩
  have hsafe : redraw.Safe (redraw.view (boot flash) []) := by
    rw [hview]
    exact fun w e => absurd e (by simp)
  obtain ⟨hsafe', hidle⟩ := Pane.run_settled (fun x hx _ => redraw_pass depth x hx) hrest hsafe h rfl
  refine ⟨fun hnone w hw => ?_, hsafe'⟩
  rcases hidle hnone with hr | hr | hr
  · by_contra hne
    rcases hr.2.flag w hne with e | e
    · exact hw e
    · exact absurd e.1 Bool.false_ne_true
  · exact hr w
  · exact hr.1 w

/-- An empty battery is reported and acknowledged. -/
def acknowledged : List Act := lcdPass ++ batteryReads 2000 ++ lcdPass ++ lcdPass ++ press .k2 ++ lcdPass ++ lcdPass

theorem visible_redrawn_acknowledged :
    (board passCalls 2).Admits (fun cfg a => JumpRule cfg a ∧ RedrawRule cfg a) (start fun _ => 0) acknowledged ∧
    Redrawn ((board passCalls 2).run (start fun _ => 0) acknowledged) :=
  ⟨by decide +kernel, visible_redrawn 2 (fun _ => 0) acknowledged (by decide +kernel)⟩

/-- The battery recovers a little and sinks again: window 26 covers window 27, whose
flag the `memset` does not reach. -/
theorem not_redrawn_window27 :
    ¬ Redrawn ((board passCalls 2).run (start fun _ => 0)
      (batteryReads 2000 ++ lcdPass ++ batteryReads 2500 ++ lcdPass ++ lcdPass ++ batteryReads 2000 ++ lcdPass)) := by
  intro h
  have hidle : ((board passCalls 2).run (start fun _ => 0) (batteryReads 2000 ++ lcdPass ++ batteryReads 2500 ++
      lcdPass ++ lcdPass ++ batteryReads 2000 ++ lcdPass)).task .lcd = none := by
    rw [← Option.isNone_iff_eq_none]
    decide +kernel
  exact absurd (h.1 hidle .w27 (by decide +kernel)) (by decide +kernel)

end Backwash.Lcd
