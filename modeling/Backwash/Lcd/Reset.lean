import Backwash.Firmware.Obligations

/-! The factory reset.

Window 19 keeps its choice in `NowButtonId` and shows it by the states of two
buttons, Reset and Back. K1 moves the choice and redraws both. K0 moves the
choice too, but sets the states of buttons 1 and 2 and draws 0 and 1, so what is
drawn after it is never what is chosen. -/
namespace Backwash.Lcd
open Concurrent Prog Firmware

/-! ### What a visit shows -/

/-- The display thread is between the change of the choice and the last of the two
buttons drawn for it. -/
def redrawing (tr : Trace) : Bool :=
  match lastOp .lcd tr with
  | some (.store .nowButtonId _) | some (.setButton _ _) | some (.guiButton 0) => true
  | _ => false

/-- The window has been taken off the stack. -/
def closed : Trace → Bool
  | [] => false
  | .did _ .guiWinDeleteTop _ :: _ => true
  | _ :: tr => closed tr

/-- Exactly one of the two buttons is drawn selected, and it is the choice. -/
def Highlights (s : Device) : Prop :=
  s.vars .nowButtonId < 2 ∧ ∀ i < 2, s.shown i = 1 ↔ s.vars .nowButtonId = i

/-- `Flash_Factory` is called with Reset drawn selected and Back not, and every
state of the window shows its choice. -/
def ShowsChoice (s : Device) (tr : Trace) : Prop :=
  closed tr = false →
    (lastOp .lcd tr = some (.mark .flashFactory) → s.shown 0 = 1 ∧ s.shown 1 = 0) ∧
    (redrawing tr = false → Highlights s)

/-- `ShowsChoice` all the while the display thread runs `p`. -/
abbrev Shows : Code Unit → Device → Trace → Prop :=
  (board (fun _ => true) 0).Along .lcd {} ShowsChoice

/-- The tokens a pass finds. -/
abbrev Pending := Sem → List Thread

def offer (k : Pending) (s : Device) : Device := {s with sem := k}

/-- `ShowsChoice` all along the passes of a visit. A pass that takes K2 is its last:
the window closes, or the controller restarts. -/
def Visit (display : Code Unit) : Device → List Pending → Prop
  | _, [] => True
  | s, k :: rest =>
    Shows (userMain19WinFun display) (offer k s) [] ∧
      (k .k2 = [] → Visit display (atomically .lcd (userMain19WinFun display) (offer k s)) rest)

/-- Window 19 as it has drawn itself, in whatever state it found the device. -/
def drawn19 (display : Code Unit) (s : Device) : Device :=
  atomically .lcd (userMain19WinFun display) (s.store (.firstFlag .w19) 0)

/-- No pass of the visit finds a token of K0. -/
def noUp : List Pending → Prop
  | [] => True
  | k :: rest => k .k0 = [] ∧ (k .k2 = [] → noUp rest)

/-! ### Passes -/

/-- Window 19 is drawn, with Back chosen or not, and shows it. -/
structure Drawn19 (back : Bool) (s : Device) : Prop where
  flag : s.vars (.firstFlag .w19) = 1
  now : s.vars .nowButtonId = back.toNat
  button0 : s.button 0 = (!back).toNat
  button1 : s.button 1 = back.toNat
  shown0 : s.shown 0 = (!back).toNat
  shown1 : s.shown 1 = back.toNat

theorem drawn19_drawn (display : Code Unit) (s : Device) : Drawn19 false (drawn19 display s) := by
  constructor <;>
    simp [drawn19, userMain19WinFun, window, atomically, perform, exec, Device.store, drawButtons, drawButton,
      Var.width]

/-- What K2 does: the reset, or back to the settings menu. -/
def select19 (display : Code Unit) : Code Unit := do
  let b ← load .nowButtonId
  match b with
  | 0 => do
    flashFactory
    cpuReset
  | 1 => do
    guiWinDeleteTop
    display
    store (.firstFlag .w19) 0
  | _ => pure ()

section
variable {back : Bool} {s : Device} {k : Pending} {display : Code Unit} {tr : Trace} {f : Unit → Code Unit}

theorem Drawn19.highlights (h : Drawn19 back s) : Highlights s := by
  refine ⟨?_, fun i hi => ?_⟩
  · rw [h.now]
    exact back.toNat_lt
  · obtain rfl | rfl : i = 0 ∨ i = 1 := by omega
    · rw [h.shown0, h.now]
      cases back <;> decide
    · rw [h.shown1, h.now]

/-- A drawn window shows its choice, and Reset is chosen if `Flash_Factory` is called. -/
theorem Drawn19.shows (h : Drawn19 back s) (hm : back = false ∨ lastOp .lcd tr ≠ some (.mark .flashFactory)) :
    ShowsChoice s tr := by
  refine fun _ => ⟨fun e => ?_, fun _ => h.highlights⟩
  obtain rfl := hm.resolve_right fun hne => hne e
  exact ⟨h.shown0, h.shown1⟩

/-- K1 moves the choice, and what is drawn with it. -/
theorem drawn19_userMain19Down (h : Drawn19 back s) : Drawn19 (!back) (atomically .lcd userMain19Down s) := by
  obtain ⟨hflag, hnow, -, -, -, -⟩ := h
  cases back <;> constructor <;>
    simp [atomically, userMain19Down, perform, exec, Device.store, drawButton, Var.width, hflag, hnow]

theorem shows_userMain19Down (h : Drawn19 back s) (hm : lastOp .lcd tr ≠ some (.mark .flashFactory))
    (hf : ∀ tr', lastOp .lcd tr' ≠ some (.mark .flashFactory) →
      Shows (f ()) (atomically .lcd userMain19Down s) tr') :
    Shows (userMain19Down >>= f) s tr := by
  have hs : ShowsChoice s tr := h.shows (.inr hm)
  have hload : ShowsChoice s (.did .lcd (.load .nowButtonId) {} :: tr) := h.shows (.inr (by simp))
  have hnow := h.now
  cases back
  all_goals
    simp only [userMain19Down, atomically, perform, bind_eq, op_bind, ret_bind, System.Along, board_exec, exec, hnow,
      drawButton, Bool.toNat_false, Bool.toNat_true] at hf ⊢
    refine ⟨hs, hload, ?_, ?_, ?_, ?_, hf _ ?_⟩ <;> simp [ShowsChoice, redrawing]

/-- The reset changes nothing that is shown. -/
theorem shows_reset (h : Drawn19 false s) : Shows (do flashFactory; cpuReset) s tr := by
  refine System.Along.of_all (R := fun s _ => Drawn19 false s) ?_ (fun s tr hs => hs.shows (.inl rfl)) h
  have hset : ∀ i, (flashSet i 0).All fun o => ∀ s (_ : Trace), Drawn19 false s → Drawn19 false (exec .lcd o {} s).1 := by
    refine fun i => All.bind (All.perform fun _ _ h => h) fun _ => All.bind (All.perform fun s _ h => ?_) fun _ =>
      All.perform (o := Op.mdelay 10) fun _ _ h => h
    exact ⟨h.flag, h.now, h.button0, h.button1, h.shown0, h.shown1⟩
  refine All.bind (All.bind (All.perform fun _ _ h => h) fun _ => ?_) fun _ => All.perform (o := Op.cpuReset) fun _ _ h => h
  exact (All.compositional _).foldr hset _

theorem shows_closed {p : Code Unit} (h : closed tr = true) : Shows p s tr := by
  refine System.Along.of_all (R := fun _ tr => closed tr = true) (All.of_forall (fun o s tr hc => ?_) p)
    (fun s tr hc hn => absurd (hn.symm.trans hc) Bool.false_ne_true) h
  unfold closed
  split <;> first | rfl | exact hc | simp_all

theorem shows_select19 (h : Drawn19 back s) (hm : lastOp .lcd tr ≠ some (.mark .flashFactory)) :
    Shows (select19 display) s tr := by
  have hs : ShowsChoice s tr := h.shows (.inr hm)
  have hload : ShowsChoice s (.did .lcd (.load .nowButtonId) {} :: tr) := h.shows (.inr (by simp))
  refine ⟨hs, ?_⟩
  have hnow : (exec .lcd (.load .nowButtonId) {} s).2 = back.toNat := h.now
  simp only [board_exec, hnow]
  cases back with
  | false => exact shows_reset h
  | true => exact ⟨hload, shows_closed rfl⟩

/-- K0 moves the choice and not what is drawn. -/
theorem not_shows_userMain19Up (h : Drawn19 back s) (hc : closed tr = false) : ¬ Shows (userMain19Up >>= f) s tr := by
  intro hshows
  have hnow := h.now
  have hb0 := h.button0
  cases back
  all_goals
    simp only [userMain19Up, perform, bind_eq, op_bind, ret_bind, System.Along, board_exec, exec, hnow,
      Bool.toNat_false, Bool.toNat_true] at hshows
    have hend := hshows.2.2.2.2.2.2.now (by simpa [closed] using hc)
    have hlast := (hend.2 (by simp [redrawing])).2 1 (by decide)
    simp [Device.store, Var.width] at hlast

/-- What a pass of the drawn window does with the keys it has taken. -/
def handle19 (display : Code Unit) (k : Pending) : Code Unit := do
  when (k .k0 ≠ []) userMain19Up
  when (k .k1 ≠ []) userMain19Down
  when (k .k2 ≠ []) (select19 display)

/-- The state and the operations of a pass up to its handling of the keys. -/
def took19 (k : Pending) (s : Device) : Device :=
  (exec .lcd (.semTake .k2Long) {} (exec .lcd (.semTake .k2) {} (exec .lcd (.semTake .k1) {}
    (exec .lcd (.semTake .k0) {} (offer k s)).1).1).1).1

def trace19 : Trace :=
  [.did .lcd (.semTake .k2Long) {}, .did .lcd (.semTake .k2) {}, .did .lcd (.semTake .k1) {},
    .did .lcd (.semTake .k0) {}, .did .lcd (.load (.firstFlag .w19)) {}]

theorem Drawn19.took (h : Drawn19 back s) (k : Pending) : Drawn19 back (took19 k s) :=
  ⟨h.flag, h.now, h.button0, h.button1, h.shown0, h.shown1⟩

theorem atomically_pass19 (h : Drawn19 back s) (k : Pending) :
    atomically .lcd (userMain19WinFun display) (offer k s) = atomically .lcd (handle19 display k) (took19 k s) := by
  have hflag : s.vars (.firstFlag .w19) = 1 := h.flag
  simp [userMain19WinFun, window, takeKeys, perform, atomically, handle19, took19, exec, offer, hflag]
  rfl

theorem shows_pass19_iff (h : Drawn19 back s) (k : Pending) :
    Shows (userMain19WinFun display) (offer k s) [] ↔ Shows (handle19 display k) (took19 k s) trace19 := by
  have hflag : s.vars (.firstFlag .w19) = 1 := h.flag
  -- up to there the pass changes nothing that is shown
  have hshows : ∀ {s'} tr', s'.vars = s.vars → s'.button = s.button → s'.shown = s.shown →
      lastOp .lcd tr' ≠ some (.mark .flashFactory) → ShowsChoice s' tr' := by
    intro s' tr' hv hb hs hm
    have hd : Drawn19 back s' := by
      constructor <;> simp [hv, hb, hs, h.flag, h.now, h.button0, h.button1, h.shown0, h.shown1]
    exact hd.shows (.inr hm)
  simp [userMain19WinFun, window, takeKeys, perform, System.Along, handle19, took19, exec, offer, hflag, hshows,
    trace19]
  exact and_iff_right (hshows [] rfl rfl rfl (by simp [lastOp]))

/-- A pass that finds no token of K0 shows the choice all along. -/
theorem shows_pass19 (h : Drawn19 back s) (h0 : k .k0 = []) : Shows (userMain19WinFun display) (offer k s) [] := by
  rw [shows_pass19_iff h]
  have hlast : lastOp .lcd trace19 ≠ some (.mark .flashFactory) := by simp [trace19]
  have hselect : ∀ {back s tr}, Drawn19 back s → lastOp .lcd tr ≠ some (.mark .flashFactory) →
      Shows (when (k .k2 ≠ []) (select19 display)) s tr := by
    intro back s tr hd hm
    by_cases h2 : k .k2 = []
    · rw [when, if_neg (not_not.mpr h2)]
      exact hd.shows (.inr hm)
    · rw [when, if_pos h2]
      exact shows_select19 hd hm
  by_cases h1 : k .k1 = []
  · simpa [handle19, when, h0, h1] using hselect (h.took k) hlast
  · have hdown := shows_userMain19Down (h.took k) hlast (f := fun _ => when (k .k2 ≠ []) (select19 display))
      fun tr' hm => hselect (drawn19_userMain19Down (h.took k)) hm
    simpa [handle19, when, h0, h1] using hdown

/-- A pass that finds one does not. -/
theorem not_shows_pass19 (h : Drawn19 back s) (h0 : k .k0 ≠ []) : ¬ Shows (userMain19WinFun display) (offer k s) [] := by
  rw [shows_pass19_iff h]
  have hclosed : closed trace19 = false := rfl
  have hup := not_shows_userMain19Up (h.took k) hclosed
    (f := fun _ => do when (k .k1 ≠ []) userMain19Down; when (k .k2 ≠ []) (select19 display))
  simpa [handle19, when, h0] using hup

/-- After a pass without K0 and K2 the window is still drawn. -/
theorem drawn19_pass19 (display : Code Unit) (h : Drawn19 back s) (h0 : k .k0 = []) (h2 : k .k2 = []) :
    ∃ back', Drawn19 back' (atomically .lcd (userMain19WinFun display) (offer k s)) := by
  rw [atomically_pass19 h]
  by_cases h1 : k .k1 = []
  · exact ⟨back, by simpa [handle19, when, h0, h1, h2, atomically] using h.took k⟩
  · refine ⟨!back, ?_⟩
    have hdown : handle19 display k = (do userMain19Down; pure ()) := by simp [handle19, when, h0, h1, h2]
    rw [hdown, atomically_bind]
    exact drawn19_userMain19Down (h.took k)

/-- A visit shows its choice exactly if none of its passes finds a token of K0. -/
theorem visit_iff (h : Drawn19 back s) (ks : List Pending) : Visit display s ks ↔ noUp ks := by
  induction ks generalizing back s with
  | nil => exact Iff.rfl
  | cons k rest ih =>
    by_cases h0 : k .k0 = []
    · refine and_congr (iff_of_true (shows_pass19 h h0) h0) (forall_congr' fun h2 => ?_)
      obtain ⟨back', h'⟩ := drawn19_pass19 display h h0 h2
      exact ih h'
    · exact iff_of_false (fun hv => not_shows_pass19 h h0 hv.1) fun hn => h0 hn.1

end

/-- In window 19 Reset is what is shown when it is carried out, and every state
shows the choice, exactly if K0 is not used. -/
theorem factory_reset_highlighted_iff (display : Code Unit) (s : Device) (ks : List Pending) :
    Visit display (drawn19 display s) ks ↔ noUp ks :=
  visit_iff (drawn19_drawn display s) ks

/-- One token of a key. -/
def token (k : Sem) : Pending := fun x => if x = k then [.button] else []

/-- K1 chooses Back, K0 chooses Reset and leaves Back drawn selected, K2 resets. -/
theorem factory_reset_back_highlighted :
    ¬ Visit (guiWinDisplay 1) (drawn19 (guiWinDisplay 1) (boot fun _ => 0)) [token .k1, token .k0, token .k2] ∧
    (let s := [token .k1, token .k0].foldl (fun s k => atomically .lcd (userMain19WinFun (guiWinDisplay 1)) (offer k s))
      (drawn19 (guiWinDisplay 1) (boot fun _ => 0))
    s.vars .nowButtonId = 0 ∧ s.shown 0 = 0 ∧ s.shown 1 = 1) := by
  refine ⟨?_, by decide +kernel⟩
  rw [visit_iff (drawn19_drawn _ _)]
  simp [noUp, token]

end Backwash.Lcd
