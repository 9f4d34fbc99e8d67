import Backwash.Lcd.Walk
import Backwash.Motor.Cycle

/-! The schedule editors.

Windows 4 and 5 edit the weeks, the days and the switch of a schedule one after
the other. `NowSetting` says which of the three the keys K0 and K1 change; it is
shared by the two windows and they reset it on their own exits only. -/
namespace Backwash.Lcd
open Concurrent Prog Firmware Motor

/-! ### The property -/

/-- The field of an editor that a variable holds: weeks, days, enable. -/
def field : Var → Option (Schedule × Nat)
  | .weekTemp k => some (k, 0)
  | .dayTemp k => some (k, 1)
  | .enableTemp k => some (k, 2)
  | _ => none

def changes : Op → Option (Schedule × Nat)
  | .store v _ => field v
  | _ => none

def drawnAfter (o : Op) (d : Option Win) : Option Win :=
  match o with
  | .mark (.winFun _) => none
  | .store (.firstFlag w) n => if n = 0 then d else some w
  | _ => d

/-- The window that has drawn itself since the last dispatch of a window function. -/
def justDrawn : Trace → Option Win
  | [] => none
  | .did .lcd o _ :: tr => drawnAfter o (justDrawn tr)
  | _ :: tr => justDrawn tr

/-- The field the display thread has just changed. -/
def changed : Trace → Option (Schedule × Nat)
  | [] => none
  | .did .lcd o _ :: _ => changes o
  | _ :: tr => changed tr

/-- Of the buttons of the first `m` fields that of field `n` is selected. -/
def Marks (n m : Nat) (b : Nat → Nat) : Prop := ∀ f < m, b (f + 1) = if f = n then 1 else 0

/-- Of the three fields `n` is the selected one. -/
def Selected (n : Nat) (b : Nat → Nat) : Prop := n < 3 ∧ Marks n 3 b

/-- An editor that has just drawn itself is at its first field; the field that the
keys change, and the one they would change between two passes, is drawn selected. -/
structure Edits (cfg : Conf) : Prop where
  first : ∀ k : Schedule, justDrawn cfg.trace = some k.win → cfg.state.vars .nowSetting = 0
  change : ∀ (k : Schedule) (f : Nat), changed cfg.trace = some (k, f) → cfg.state.vars (.firstFlag k.win) ≠ 0 →
    cfg.state.vars .nowSetting = f ∧ Selected f cfg.state.shown
  idle : cfg.task .lcd = none → ∀ k : Schedule, cfg.state.vars (.firstFlag k.win) ≠ 0 →
    Selected (cfg.state.vars .nowSetting) cfg.state.shown

/-- The flags are cleared while no editor is past its first field. -/
def EditRule (cfg : Conf) : Act → Prop
  | .step t _ => cfg.head t = some .memsetFirstFlag → cfg.state.vars .nowSetting = 0
  | .start _ _ => True

instance (cfg : Conf) : ∀ a, Decidable (EditRule cfg a)
  | .step _ _ => inferInstanceAs (Decidable (_ → _))
  | .start _ _ => inferInstanceAs (Decidable True)

/-! ### The view -/

structure Editor where
  screen : Screen
  drawn : Option Win
  changed : Option (Schedule × Nat)

namespace Editor

def after (o : Op) (r : Res o) (x : Editor) : Editor :=
  ⟨x.screen.after o r, drawnAfter o x.drawn, changes o⟩

/-- No editor is past its first field, and none but `p` is open. -/
def Calm (p : Option Schedule) (x : Editor) : Prop :=
  x.screen.setting = 0 ∧ ∀ k : Schedule, x.screen.flag k.win ≠ 0 → p = some k

/-- An open editor has the field it edits drawn selected. -/
structure Linked (x : Editor) : Prop where
  button : ∀ k : Schedule, x.screen.flag k.win ≠ 0 → Selected x.screen.setting x.screen.button
  shown : ∀ k : Schedule, x.screen.flag k.win ≠ 0 → Selected x.screen.setting x.screen.shown
  closed : (∀ k : Schedule, x.screen.flag k.win = 0) → x.screen.setting = 0
  drawn : ∀ k : Schedule, x.drawn = some k.win → x.screen.setting = 0

/-- Linked is a matter of the screen, whatever was changed. -/
theorem Linked.keep {x y : Editor} (h : x.Linked) (hs : y.screen = x.screen) (hd : y.drawn = x.drawn ∨ y.drawn = none) :
    y.Linked := by
  refine ⟨?_, ?_, ?_, fun k hk => ?_⟩
  · rw [hs]
    exact h.button
  · rw [hs]
    exact h.shown
  · rw [hs]
    exact h.closed
  · rw [hs]
    rcases hd with e | e
    · exact h.drawn k (e ▸ hk)
    · rw [e] at hk
      cases hk

theorem Calm.linked {x : Editor} (h : x.Calm none) : x.Linked where
  button := fun k hk => absurd (h.2 k hk) (by simp)
  shown := fun k hk => absurd (h.2 k hk) (by simp)
  closed := fun _ => h.1
  drawn := fun _ _ => h.1

end Editor

/-! ### The pane -/

def editView (s : Device) (tr : Trace) : Editor := ⟨screen s, justDrawn tr, changed tr⟩

section
variable {t : Thread} {o : Op} {i : Input} {s : Device} {tr : Trace}

theorem edit_after :
    editView (exec .lcd o i s).1 (.did .lcd o i :: tr) = (editView s tr).after o (exec .lcd o i s).2 := by
  unfold editView Editor.after
  rw [screen_exec]
  rfl

/-- What other threads do is not a drawing and not a change. -/
theorem edit_trace (ht : t ≠ .lcd) :
    justDrawn (.did t o i :: tr) = justDrawn tr ∧ changed (.did t o i :: tr) = changed tr := by
  cases t <;> first | exact absurd rfl ht | exact ⟨rfl, rfl⟩

theorem edit_other (ht : t ≠ .lcd) (hmay : may t o = true) (hh : homing o = false) :
    editView (exec t o i s).1 (.did t o i :: tr) = editView s tr := by
  unfold editView
  rw [screen_other ht hmay hh, (edit_trace ht).1, (edit_trace ht).2]

theorem edit_home : editView (exec .timer o i s).1 (.did .timer o i :: tr) =
    ⟨(screen s).after o (exec .timer o i s).2, justDrawn tr, changed tr⟩ := by
  unfold editView
  rw [screen_exec]
  rfl

end

/-- No editor is open. -/
theorem closed_stale {a : Stack} (h : ∀ u, a.flag u ≠ 0 → Stale (fun _ => true) u) (k : Schedule) : a.flag k.win = 0 := by
  by_contra hne
  rcases h _ hne with ⟨-, e | e⟩ <;> cases k <;> cases e

def EditSafe (x : Editor) : Prop :=
  (∀ k : Schedule, x.drawn = some k.win → x.screen.setting = 0) ∧
  ∀ (k : Schedule) (f : Nat), x.changed = some (k, f) → x.screen.flag k.win ≠ 0 →
    x.screen.setting = f ∧ Selected f x.screen.shown

/-- An operation that changes no field. -/
theorem EditSafe.unchanged {o : Op} {r : Res o} {x : Editor} (ho : changes o = none)
    (h : ∀ k : Schedule, (x.after o r).drawn = some k.win → (x.after o r).screen.setting = 0) :
    EditSafe (x.after o r) := by
  refine ⟨h, fun k f e => ?_⟩
  rw [show (x.after o r).changed = none from ho] at e
  cases e

/-- Nothing is drawn but what a `memset` misses, and no editor is past its first field. -/
def EditWiped (x : Editor) : Prop := x.screen.setting = 0 ∧ ∀ u, x.screen.flag u ≠ 0 → Stale (fun _ => true) u

theorem EditWiped.safe {x : Editor} (h : EditWiped x) : EditSafe x :=
  ⟨fun _ _ => h.1, fun k _ _ hk => absurd (closed_stale h.2 k) hk⟩

def editing : Pane Editor where
  can := fun o x r => x.screen.can o r ∧ (o = .memsetFirstFlag → x.screen.setting = 0)
  after := Editor.after
  Safe := EditSafe
  view := editView
  Extra := EditRule
  Rest := fun x => x.Linked ∧ Tidy (fun _ => true) x.screen.toStack
  Wiped := EditWiped
  Emptied := fun x => EditWiped x ∧ x.screen.wins = []
  view_can := fun hr hhead => ⟨screen_can, fun e => hr (by rw [hhead, e])⟩
  view_after := fun _ _ _ => edit_after
  view_other := fun _ _ _ => edit_other
  view_began := fun t c s tr => by
    unfold editView
    rw [screen_enter]
    rfl
  delay := fun {x} hx => ⟨EditSafe.unchanged rfl hx.1.drawn, hx.1.keep rfl (.inl rfl), hx.2⟩
  wipe := fun {cfg} i hr hhead hx => by
    rw [edit_home]
    have hwiped : EditWiped ⟨(screen cfg.state).after .memsetFirstFlag (exec .timer .memsetFirstFlag i cfg.state).2,
        justDrawn cfg.trace, changed cfg.trace⟩ := ⟨hr hhead, (hx.2.wipe (.inl rfl)).2⟩
    exact ⟨hwiped.safe, hwiped⟩
  empty := fun i s tr hx => by
    rw [edit_home]
    have hwiped : EditWiped ⟨(screen s).after .guiWinInit (exec .timer .guiWinInit i s).2, justDrawn tr, changed tr⟩ := hx
    exact ⟨hwiped.safe, hwiped, rfl⟩
  home := fun i s tr hx => by
    rw [edit_home]
    obtain ⟨hw, hwins⟩ := hx
    have hwiped : EditWiped ⟨(screen s).after (.guiWinAdd .w1) (exec .timer (.guiWinAdd .w1) i s).2, justDrawn tr,
        changed tr⟩ := hw
    have hcalm : Editor.Calm none ⟨(screen s).after (.guiWinAdd .w1) (exec .timer (.guiWinAdd .w1) i s).2, justDrawn tr,
        changed tr⟩ := ⟨hw.1, fun k hk => absurd (closed_stale hw.2 k) hk⟩
    refine ⟨hwiped.safe, hcalm.linked, ?_, fun u hu => .inr (hw.2 u hu)⟩
    show Tree ((screen s).toStack.push .w1).wins
    have hwins' : (screen s).wins = [] := hwins
    rw [Stack.wins_home hwins']
    rfl

/-! ### Other windows, requests -/

def editorWin (w : Win) : Bool := w == .w4 || w == .w5

theorem editorWin_win (k : Schedule) : editorWin k.win = true := by cases k <;> rfl

/-- Other windows neither open an editor nor change a field. -/
theorem Editor.Calm.keep {p : Option Schedule} {w : Win} {o : Op} {x : Editor} (hw : editorWin w = false)
    (ho : winMay w o = true) (r : Res o) (hx : x.Calm p) :
    editing.Safe (x.after o r) ∧ (x.after o r).Calm p := by
  have hown : ownMay w o = true := (Bool.and_eq_true_iff.mp ho).2
  have hset : (x.screen.after o r).setting = 0 := by
    cases o with
    | store v n =>
      cases v <;> first | exact hx.1 | exact absurd hown (by rw [show ownMay w _ = editorWin w from rfl, hw]; decide)
    | _ => exact hx.1
  have hchange : changes o = none := by
    cases o with
    | store v n =>
      cases v <;> first | rfl | exact absurd hown (by rw [show ownMay w _ = editorWin w from rfl, hw]; decide)
    | _ => rfl
  refine ⟨EditSafe.unchanged hchange (fun _ _ => hset), hset, fun k hk => ?_⟩
  rcases Stack.flag_after hk with e | ⟨n, -, rfl⟩
  · exact hx.2 k e
  · obtain rfl : k.win = w := by simpa using (Bool.and_eq_true_iff.mp hown).1
    rw [editorWin_win] at hw
    cases hw

/-- The guide through the other windows, while editor `p` may be about to close. -/
def editGuide (p : Option Schedule) : Guide editing.toSight (fun _ => true) where
  stack := fun x => x.screen.toStack
  Held := fun
    | .draw w => fun x => x.Calm p ∧ editorWin w = false
    | .keys _ => Editor.Calm p
  special := editorWin
  stack_after := fun _ _ _ => rfl
  stack_can := fun h => Screen.stack_can h.1
  draw := fun {w o x r} hs ho hx _ => by
    obtain ⟨hsafe, hcalm⟩ := hx.1.keep hs (Bool.and_eq_true_iff.mp ho).1 r
    exact ⟨hsafe, hcalm, hs⟩
  keys := fun {w o x r} hs ho _ hx _ => by
    obtain ⟨hsafe, hcalm⟩ := Editor.Calm.keep hs (Bool.and_eq_true_iff.mp ho).1 r hx
    exact ⟨hsafe, hcalm, fun _ => .inl rfl⟩
  turn := fun h => h.1
  enter := fun {w v x} hx _ hland _ _ => by
    have hv : editorWin v = false := by cases v <;> first | rfl | cases hland
    exact ⟨EditSafe.unchanged rfl (fun _ _ => hx.1), hx, hv⟩
  top := fun hx _ => ⟨EditSafe.unchanged rfl (fun _ _ => hx.1), hx⟩
  leave := fun _ h => h
  special_draw := fun _ hs hx => by
    rw [hx.2] at hs
    cases hs

theorem editService : Service editing.toSight (fun _ => true) (fun x => x.screen.toStack) Editor.Linked where
  stack_after := fun _ _ _ => rfl
  stack_can := fun h => Screen.stack_can h.1
  aside := fun {o x r} ho hx _ => by
    obtain ⟨hmay, hquiet⟩ := Bool.and_eq_true_iff.mp ho
    have hscreen : (x.after o r).screen = x.screen := Screen.after_inert (Bool.and_eq_true_iff.mp hquiet).1 r x.screen
    have hdrawn : (x.after o r).drawn = x.drawn ∨ (x.after o r).drawn = none := by
      cases o with
      | store v n => cases v <;> first | exact .inl rfl | cases (Bool.and_eq_true_iff.mp hquiet).1
      | mark m => cases m <;> first | exact .inl rfl | exact .inr rfl
      | _ => exact .inl rfl
    have hchange : changes o = none := by
      cases o with
      | store v n => cases v <;> first | rfl | simp [taskMay, openMay, requestMay] at hmay
      | _ => rfl
    have hlinked := hx.keep hscreen hdrawn
    exact ⟨EditSafe.unchanged hchange hlinked.drawn, hlinked⟩
  clear := fun {w x} hw hx _ => by
    have hflag : ∀ k : Schedule, (x.after (.store (.firstFlag w) 0) ()).screen.flag k.win = x.screen.flag k.win := by
      intro k
      refine Stack.flag_set_of_ne ?_ _ _
      rcases hw with rfl | rfl <;> cases k <;> decide
    have hlinked : (x.after (.store (.firstFlag w) 0) ()).Linked := by
      refine ⟨fun k hk => hx.button k (hflag k ▸ hk), fun k hk => hx.shown k (hflag k ▸ hk), fun h => hx.closed fun k => ?_, ?_⟩
      · rw [← hflag k, h k]
      · exact hx.drawn
    exact ⟨EditSafe.unchanged rfl hlinked.drawn, hlinked⟩
  wipe := fun {x} hx hcan => by
    have hcalm : (x.after .memsetFirstFlag ()).Calm none :=
      ⟨hcan.2 rfl, fun k hk => absurd (if_neg (by cases k <;> decide)) hk⟩
    exact ⟨EditSafe.unchanged rfl (fun _ _ => hcalm.1), hcalm.linked, .inl rfl⟩
  push := fun {w x} _ _ hx _ => by
    have hlinked : (x.after (.guiWinAdd w) ()).Linked := ⟨hx.button, hx.shown, hx.closed, hx.drawn⟩
    exact ⟨EditSafe.unchanged rfl hlinked.drawn, hlinked⟩
  alert := fun {w x} _ hx => by
    refine Sight.Run.bind (R := fun _ y => y = x.after (.guiWinAdd w) ()) (Sight.Run.perform fun _ _ => ?_) fun _ y hy =>
      Sight.Run.perform fun _ hcan => ?_
    · exact ⟨EditSafe.unchanged rfl hx.drawn, rfl⟩
    · subst hy
      have hcalm : ((x.after (.guiWinAdd w) ()).after .memsetFirstFlag ()).Calm none :=
        ⟨hcan.2 rfl, fun k hk => absurd (if_neg (by cases k <;> decide)) hk⟩
      exact ⟨EditSafe.unchanged rfl (fun _ _ => hcalm.1), hcalm.linked, rfl,
        .inl rfl⟩

/-! ### The editors -/

/-- What an editor does without moving to another field: it reads, it changes a field
and draws buttons. -/
def level : Op → Bool
  | .load _ | .sprintf _ _ | .semTake _ | .guiButton _ => true
  | .setButton i _ => i == 0
  | .store v _ => (field v).isSome
  | _ => false

/-- An editor over stack `a` at field `s`, with the buttons of the first `m` fields
drawn for field `n`. -/
structure Editor.At (a : Stack) (d : Option Win) (s n m : Nat) (x : Editor) : Prop where
  wins : x.screen.wins = a.wins
  flag : x.screen.flag = a.flag
  setting : x.screen.setting = s
  drawn : x.drawn = d
  button : Marks n m x.screen.button
  shown : Marks n m x.screen.shown

namespace Editor.At
variable {a : Stack} {d : Option Win} {s n m : Nat} {x : Editor} {k : Schedule}

theorem keep {o : Op} (h : At a d s n m x) (ho : level o = true) (r : Res o) : At a d s n m (x.after o r) := by
  cases o with
  | load v => exact ⟨h.wins, h.flag, h.setting, h.drawn, h.button, h.shown⟩
  | sprintf b v => exact ⟨h.wins, h.flag, h.setting, h.drawn, h.button, h.shown⟩
  | semTake j =>
    refine ⟨?_, ?_, h.setting, h.drawn, h.button, h.shown⟩
    · rw [← h.wins]
      cases j <;> rfl
    · rw [← h.flag]
      cases j <;> rfl
  | guiButton i =>
    refine ⟨h.wins, h.flag, h.setting, h.drawn, h.button, fun f hf => ?_⟩
    by_cases hi : f + 1 = i
    · subst hi
      simpa [Editor.after, Screen.after] using h.button f hf
    · simpa [Editor.after, Screen.after, hi] using h.shown f hf
  | setButton i b =>
    obtain rfl : i = 0 := by simpa [level] using ho
    exact ⟨h.wins, h.flag, h.setting, h.drawn, fun f hf => h.button f hf, h.shown⟩
  | store v b =>
    cases v <;> first | exact ⟨h.wins, h.flag, h.setting, h.drawn, h.button, h.shown⟩ | cases ho
  | _ => cases ho

/-- A field is changed before the editor is drawn, or while it is the selected one. -/
theorem safe {o : Op} (h : At a d s n m x) (ho : level o = true) (hd : ∀ k : Schedule, d = some k.win → s = 0)
    (hc : ∀ (k : Schedule) (f : Nat), changes o = some (k, f) → a.flag k.win = 0 ∨ (s = f ∧ n = f ∧ f < 3 ∧ m = 3))
    (r : Res o) : EditSafe (x.after o r) := by
  have hx := h.keep ho r
  refine ⟨fun k hk => ?_, fun k f hf hflag => ?_⟩
  · rw [hx.drawn] at hk
    rw [hx.setting]
    exact hd k hk
  · rw [hx.flag] at hflag
    obtain ⟨rfl, rfl, hf3, rfl⟩ := (hc k f hf).resolve_left hflag
    exact ⟨hx.setting, hf3, hx.shown⟩

theorem skip {β : Type} {o : Op} {f : Res o → Code β} {Q : β → Editor → Prop} (h : At a d s n m x)
    (ho : level o = true) (hd : ∀ k : Schedule, d = some k.win → s = 0) (hc : changes o = none)
    (hf : ∀ r y, At a d s n m y → editing.Run (f r) y Q) : editing.Run (perform o >>= f) x Q := by
  refine Sight.Run.bind (Sight.Run.perform fun r _ => ⟨h.safe ho hd (fun k f e => ?_) r, h.keep ho r⟩) hf
  rw [hc] at e
  cases e

/-- The next button is drawn. -/
theorem next {v : Nat} (h : At a d s n m x) (hd : ∀ k : Schedule, d = some k.win → s = 0) (hm : m < 4)
    (hv : v = if m = n then 1 else 0) : editing.Run (drawButton (m + 1) v) x fun _ y => At a d s n (m + 1) y := by
  have hbound : m + 1 < 5 := by omega
  have hset : Marks n (m + 1) ((x.after (.setButton (m + 1) v) ()).screen.button) := by
    intro f hf
    by_cases hfm : f = m
    · subst hfm
      simp [Editor.after, Screen.after, hbound, hv]
    · have := h.button f (by omega)
      simpa [Editor.after, Screen.after, hbound, hfm] using this
  have hshown : Marks n (m + 1) (((x.after (.setButton (m + 1) v) ()).after (.guiButton (m + 1)) ()).screen.shown) := by
    intro f hf
    by_cases hfm : f = m
    · subst hfm
      exact (Function.update_self _ _ _).trans (hset f hf)
    · have hne : f + 1 ≠ m + 1 := by omega
      exact (Function.update_of_ne hne _ _).trans (h.shown f (by omega))
  have hdrawn : ∀ k : Schedule, x.drawn = some k.win → x.screen.setting = 0 := fun k hk => by
    rw [h.setting]
    exact hd k (h.drawn ▸ hk)
  refine Sight.Run.bind (R := fun _ y => y = x.after (.setButton (m + 1) v) ())
    (Sight.Run.perform fun _ _ => ⟨EditSafe.unchanged rfl hdrawn, rfl⟩) fun _ y hy => Sight.Run.perform fun _ _ => ?_
  subst hy
  exact ⟨EditSafe.unchanged rfl hdrawn, h.wins, h.flag, h.setting, h.drawn, hset, hshown⟩

/-- The three buttons are drawn for another field. -/
theorem select {β : Type} {p : Code β} {Q : β → Editor → Prop} (h : At a none s n m x) {j : Nat} {i₀ i₁ i₂ : Nat}
    (h₀ : i₀ = if 0 = j then 1 else 0) (h₁ : i₁ = if 1 = j then 1 else 0) (h₂ : i₂ = if 2 = j then 1 else 0)
    (hp : ∀ y, At a none s j 3 y → editing.Run p y Q) :
    editing.Run (do drawButton 1 i₀; drawButton 2 i₁; drawButton 3 i₂; p) x Q := by
  have hstart : At a none s j 0 x := ⟨h.wins, h.flag, h.setting, h.drawn, fun _ hf => by omega, fun _ hf => by omega⟩
  refine (hstart.next (by simp) (by omega) h₀).bind fun _ y hy => (hy.next (by simp) (by omega) h₁).bind fun _ z hz =>
    (hz.next (by simp) (by omega) h₂).bind fun _ u hu => hp u hu

/-- Stretches that only change the selected field. -/
theorem stretch {α : Type} {p : Code α} (h : At a none s s 3 x) (hs : s < 3)
    (hp : p.All fun o => level o = true ∧ ∀ (k : Schedule) (f : Nat), changes o = some (k, f) → s = f) :
    editing.Run p x fun _ y => At a none s s 3 y := by
  refine Sight.Run.all (hp.mono fun o ho y r hy _ => ⟨hy.safe ho.1 (by simp) (fun k f e => .inr ?_) r, hy.keep ho.1 r⟩) h
  obtain rfl := ho.2 k f e
  exact ⟨rfl, rfl, hs, rfl⟩

/-- The first pass of a visit. -/
theorem run_scheduleDraw (h : At a none 0 n m x) (hflag : a.flag k.win = 0) :
    editing.Run (scheduleDraw k) x fun _ y => At (a.set k.win 1) (some k.win) 0 0 3 y := by
  have hstart : At a none 0 0 0 x := ⟨h.wins, h.flag, h.setting, h.drawn, fun _ hf => by omega, fun _ hf => by omega⟩
  have hfill : ∀ {o : Op} {f : Res o → Code Unit} {y : Editor} {Q : Unit → Editor → Prop}, At a none 0 0 0 y →
      level o = true → (∀ j f, changes o = some (j, f) → j = k) →
      (∀ r z, At a none 0 0 0 z → editing.Run (f r) z Q) → editing.Run (perform o >>= f) y Q := by
    intro o f y Q hy ho hk hf
    refine Sight.Run.bind (Sight.Run.perform fun r _ => ⟨hy.safe ho (by simp) (fun j f e => .inl ?_) r, hy.keep ho r⟩) hf
    rw [hk j f e]
    exact hflag
  refine hfill hstart rfl (by simp [changes]) fun (w : Nat) y hy => hfill hy rfl (by simp [changes, field]) fun _ y hy => ?_
  refine hfill hy rfl (by simp [changes]) fun (d : Nat) y hy => hfill hy rfl (by simp [changes, field]) fun _ y hy => ?_
  refine hfill hy rfl (by simp [changes]) fun (e : Nat) y hy => hfill hy rfl (by simp [changes, field]) fun _ y hy => ?_
  have hd : ∀ j : Schedule, some k.win = some j.win → 0 = 0 := fun _ _ => rfl
  refine Sight.Run.bind (R := fun _ z => At (a.set k.win 1) (some k.win) 0 0 0 z) (Sight.Run.perform fun _ _ => ?_)
    fun _ z hz => ?_
  · refine ⟨EditSafe.unchanged rfl fun _ _ => hy.setting, hy.wins, ?_, hy.setting, rfl, hy.button, hy.shown⟩
    show Function.update y.screen.flag k.win 1 = Function.update a.flag k.win 1
    rw [hy.flag]
  refine Sight.Run.bind (R := fun _ z => At (a.set k.win 1) (some k.win) 0 0 0 z)
    (hz.skip rfl hd rfl fun _ u hu => hu.skip (f := pure) rfl hd rfl fun _ v hv => hv) fun _ z hz => ?_
  refine hz.skip rfl hd rfl fun (w : Nat) z hz => hz.skip rfl hd rfl fun _ z hz =>
    (hz.next hd (by omega) rfl).bind fun _ z hz => ?_
  refine hz.skip rfl hd rfl fun (d : Nat) z hz => hz.skip rfl hd rfl fun _ z hz =>
    (hz.next hd (by omega) rfl).bind fun _ z hz => hz.next hd (by omega) rfl

theorem run_setting {β : Type} {f : Nat → Code β} {Q : β → Editor → Prop} (h : At a none s n m x)
    (hf : ∀ y, At a none s n m y → editing.Run (f s) y Q) : editing.Run (load .nowSetting >>= f) x Q := by
  refine Sight.Run.bind (R := fun r y => r = s ∧ At a none s n m y) (Sight.Run.perform fun (r : Nat) hcan => ?_)
    fun r y hy => hy.1 ▸ hf y hy.2
  have hr : r = x.screen.setting := hcan.1
  exact ⟨h.safe rfl (by simp) (by simp [changes]) r, hr.trans h.setting, h.keep (o := .load .nowSetting) rfl r⟩

theorem run_scheduleUp (h : At a none s s 3 x) (hs : s < 3) : editing.Run (scheduleUp k) x fun _ y => At a none s s 3 y := by
  refine h.run_setting fun y hy => hy.stretch hs ?_
  obtain rfl | rfl | rfl : s = 0 ∨ s = 1 ∨ s = 2 := by omega
  all_goals
    simp only [wrapDown, drawEnable, decr]
    repeat' first
      | intro _ | with_reducible apply All.bind | with_reducible apply All.when | with_reducible apply All.ite
      | exact All.perform ⟨rfl, by simp [changes, field]⟩

theorem run_scheduleDown (h : At a none s s 3 x) (hs : s < 3) :
    editing.Run (scheduleDown k) x fun _ y => At a none s s 3 y := by
  refine h.run_setting fun y hy => hy.stretch hs ?_
  obtain rfl | rfl | rfl : s = 0 ∨ s = 1 ∨ s = 2 := by omega
  all_goals
    simp only [wrapUp, drawEnable, incr]
    repeat' first
      | intro _ | with_reducible apply All.bind | with_reducible apply All.when | with_reducible apply All.ite
      | exact All.perform ⟨rfl, by simp [changes, field]⟩

theorem linked (h : At a d s s 3 x) (hs : s < 3) (hd : ∀ k : Schedule, d = some k.win → s = 0)
    (hk : a.flag k.win ≠ 0) : x.Linked := by
  refine ⟨fun _ _ => ?_, fun _ _ => ?_, fun hc => absurd (hc k) ?_, fun j hj => ?_⟩
  · rw [h.setting]
    exact ⟨hs, h.button⟩
  · rw [h.setting]
    exact ⟨hs, h.shown⟩
  · rwa [h.flag]
  · rw [h.setting]
    exact hd j (h.drawn ▸ hj)

/-- The last Select saves the schedule and closes the editor. -/
theorem run_scheduleSave (h : At a none 2 2 3 x) (ht : Tidy (fun _ => true) a) (hw : a.wins.head? = some k.win) :
    editing.Run (scheduleSave k) x fun _ y => y.Linked ∧ Tidy (fun _ => true) y.screen.toStack := by
  let Shut (y : Editor) : Prop := y.Calm none ∧ y.screen.wins = a.wins ∧ y.screen.flag = (a.set k.win 0).flag
  have hflags : ∀ j : Schedule, (a.set k.win 0).flag j.win = 0 := by
    intro j
    by_contra hne
    rcases (ht.set_zero k.win).lit hw hne with e | ⟨-, e | e⟩
    · rw [e, Stack.flag_set_self] at hne
      exact hne rfl
    all_goals cases j <;> cases e
  have hstep : ∀ {o : Op} {y : Editor}, Shut y → inert o = true → editing.Run (perform o) y fun _ z => Shut z := by
    intro o y hy ho
    refine Sight.Run.perform fun r _ => ?_
    have hscreen : (y.after o r).screen = y.screen := Screen.after_inert ho r y.screen
    have hshut : Shut (y.after o r) := by
      simp only [Shut, Editor.Calm, hscreen]
      exact hy
    exact ⟨⟨fun _ _ => hshut.1.1, fun j f _ hj => absurd (hshut.1.2 j hj) (by simp)⟩, hshut⟩
  have hskip : ∀ {o : Op} {f : Res o → Code Unit} {y : Editor} {Q : Unit → Editor → Prop}, Shut y → inert o = true →
      (∀ r z, Shut z → editing.Run (f r) z Q) → editing.Run (perform o >>= f) y Q :=
    fun hy ho hf => (hstep hy ho).bind hf
  refine Sight.Run.bind (R := fun _ y => y = x.after (.store (.firstFlag k.win) 0) ())
    (Sight.Run.perform fun _ _ => ⟨EditSafe.unchanged rfl fun j hj => ?_, rfl⟩) fun _ y hy => ?_
  · rw [show (x.after (.store (.firstFlag k.win) 0) ()).drawn = none from h.drawn] at hj
    cases hj
  refine Sight.Run.bind (R := fun _ y => Shut y) (Sight.Run.perform fun _ _ => ?_) fun _ y hy => ?_
  · subst hy
    have hflag : ((x.after (.store (.firstFlag k.win) 0) ()).after (.store .nowSetting 0) ()).screen.flag =
        (a.set k.win 0).flag := by
      show Function.update x.screen.flag k.win 0 = Function.update a.flag k.win 0
      rw [h.flag]
    exact ⟨EditSafe.unchanged rfl fun _ _ => rfl, ⟨rfl, fun j hj => absurd ((congrFun hflag j.win).trans (hflags j)) hj⟩,
      h.wins, hflag⟩
  simp only [flashSet, Prog.bind_assoc]
  iterate 2 refine hskip hy rfl fun _ y hy => ?_
  refine Sight.Run.bind (R := fun _ y => Shut y) (Sight.Run.when (fun _ => hstep hy rfl) fun _ => hy) fun _ y hy => ?_
  iterate 19 refine hskip hy rfl fun _ y hy => ?_
  refine Sight.Run.perform fun _ _ => ⟨EditSafe.unchanged rfl fun _ _ => hy.1.1, ?_, ?_⟩
  · exact Calm.linked (x := y.after .guiWinDeleteTop ()) hy.1
  · have h1 : k.win ≠ .w1 := by cases k <;> decide
    refine (ht.pop_set hw h1).congr ?_ hy.2.2
    show (if y.screen.wins.length ≤ 1 then y.screen.wins else y.screen.wins.tail) = a.pop.wins
    rw [hy.2.1]
    rfl

/-- An editor whose switch stands at Exit closes at once. -/
theorem run_exit (h : At a none s n m x) (ht : Tidy (fun _ => true) a) (hw : a.wins.head? = some k.win) (i : Nat) :
    editing.Run (do store .nowSetting 0; guiWinDeleteTop; guiWinDisplay i; store (.firstFlag k.win) 0) x fun _ y =>
      y.Linked ∧ Tidy (fun _ => true) y.screen.toStack := by
  have h1 : k.win ≠ .w1 := by cases k <;> decide
  have hx : Tidy (fun _ => true) x.screen.toStack := ht.congr h.wins h.flag
  have hxw : x.screen.wins.head? = some k.win := by rw [h.wins, hw]
  have hcalm : (x.after (.store .nowSetting 0) ()).Calm (some k) := by
    refine ⟨rfl, fun j hj => ?_⟩
    rcases hx.lit hxw hj with e | ⟨-, e | e⟩ <;> cases j <;> cases k <;> first | rfl | cases e
  refine Sight.Run.bind (R := fun _ y => y = x.after (.store .nowSetting 0) ())
    (Sight.Run.perform fun _ _ => ⟨EditSafe.unchanged rfl fun _ _ => rfl, rfl⟩) fun _ y hy => ?_
  refine Sight.Run.bind (R := fun _ z => z = y.after .guiWinDeleteTop ())
    (Sight.Run.perform fun _ _ => ⟨EditSafe.unchanged rfl fun _ _ => hy ▸ hcalm.1, rfl⟩) fun _ z hz => ?_
  subst hy hz
  refine Sight.Run.bind (Guide.display_below (Γ := editGuide (some k)) hx hxw h1 (by cases k <;> rfl) rfl i _ rfl hcalm)
    fun _ u hu => Sight.Run.perform fun _ _ => ?_
  obtain ⟨hheld, huncovers⟩ := hu
  have hclosed : (u.after (.store (.firstFlag k.win) 0) ()).Calm none := by
    refine ⟨hheld.1, fun j hj => ?_⟩
    by_cases hjk : j = k
    · subst hjk
      exact absurd (Stack.flag_set_self _ _ _) hj
    · have hwin : j.win ≠ k.win := by
        intro e
        cases j <;> cases k <;> first | exact hjk rfl | cases e
      have hflag : u.screen.flag j.win ≠ 0 := (Stack.flag_set_of_ne hwin u.screen.toStack 0) ▸ hj
      exact absurd (Option.some.inj (hheld.2 j hflag)).symm hjk
  exact ⟨EditSafe.unchanged rfl fun _ _ => hclosed.1, hclosed.linked, hx.shown_set hxw huncovers rfl⟩

theorem run_scheduleSelect (h : At a none s s 3 x) (hs : s < 3) (ht : Tidy (fun _ => true) a) (hw : a.wins.head? = some k.win)
    (hk : a.flag k.win ≠ 0) (i : Nat) :
    editing.Run (scheduleSelect (guiWinDisplay i) k) x fun _ y => y.Linked ∧ Tidy (fun _ => true) y.screen.toStack := by
  refine h.skip rfl (by simp) rfl fun (e : Nat) y hy => Sight.Run.ite (fun _ => hy.run_exit ht hw i) fun _ => ?_
  -- Select moves on to the next field
  have hnext : ∀ {j : Nat} {z : Editor}, j < 2 → At a none j (j + 1) 3 z →
      editing.Run (incr .nowSetting) z fun _ u => u.Linked ∧ Tidy (fun _ => true) u.screen.toStack := by
    intro j z hj hz
    refine hz.run_setting fun u hu => Sight.Run.perform fun _ _ => ?_
    have hmoved : At a none (j + 1) (j + 1) 3 (u.after (.store .nowSetting (j + 1)) ()) :=
      ⟨hu.wins, hu.flag, show (j + 1) % 2 ^ 8 = j + 1 by omega, hu.drawn, hu.button, hu.shown⟩
    refine ⟨EditSafe.unchanged rfl fun k hk => ?_, hmoved.linked (by omega) (by simp) hk, ht.congr hu.wins hu.flag⟩
    rw [hmoved.drawn] at hk
    cases hk
  refine hy.run_setting fun z hz => ?_
  obtain rfl | rfl | rfl : s = 0 ∨ s = 1 ∨ s = 2 := by omega
  · exact hz.select (j := 1) rfl rfl rfl fun u hu => hnext (by omega) hu
  · exact hz.select (j := 2) rfl rfl rfl fun u hu => hnext (by omega) hu
  · exact hz.run_scheduleSave ht hw

end Editor.At

/-- A pass of an editor. -/
theorem run_scheduleWinFun {x : Editor} {k : Schedule} (i : Nat) (hx : x.Linked) (hd : x.drawn = none)
    (ht : Tidy (fun _ => true) x.screen.toStack) (hw : x.screen.wins.head? = some k.win) :
    editing.Run (scheduleWinFun (guiWinDisplay i) k) x fun _ y => y.Linked ∧ Tidy (fun _ => true) y.screen.toStack := by
  have hwin : ∀ j : Schedule, x.screen.flag j.win ≠ 0 → j = k := by
    intro j hj
    rcases ht.lit hw hj with e | ⟨-, e | e⟩ <;> cases j <;> cases k <;> first | rfl | cases e
  by_cases hf : x.screen.flag k.win = 0
  · have hset : x.screen.setting = 0 := by
      refine hx.closed fun j => ?_
      by_contra hne
      rw [hwin j hne] at hne
      exact hne hf
    have hat : x.At x.screen.toStack none 0 0 0 := ⟨rfl, rfl, hset, hd, fun _ h => by omega, fun _ h => by omega⟩
    refine Sight.Run.bind (R := fun n y => n = 0 ∧ y.At x.screen.toStack none 0 0 0) (Sight.Run.perform fun (n : Nat) hcan => ?_)
      fun (n : Nat) y hy => ?_
    · exact ⟨hat.safe rfl (by simp) (by simp [changes]) n, Eq.trans hcan.1 hf, hat.keep (o := .load (.firstFlag k.win)) rfl n⟩
    obtain ⟨rfl, hy⟩ := hy
    refine (hy.run_scheduleDraw hf).mono fun _ z hz => ⟨hz.linked (k := k) (by omega) (fun _ _ => rfl) ?_, ?_⟩
    · rw [Stack.flag_set_self]
      decide
    · exact (ht.set_top hw 1).congr hz.wins hz.flag
  · have hbutton := hx.button k hf
    have hat : x.At x.screen.toStack none x.screen.setting x.screen.setting 3 :=
      ⟨rfl, rfl, rfl, hd, hbutton.2, (hx.shown k hf).2⟩
    refine Sight.Run.bind (R := fun n y => n ≠ 0 ∧ y.At x.screen.toStack none x.screen.setting x.screen.setting 3)
      (Sight.Run.perform fun (n : Nat) hcan => ?_) fun (n : Nat) y hy => ?_
    · exact ⟨hat.safe rfl (by simp) (by simp [changes]) n, fun e => hf (Eq.trans (Eq.symm hcan.1) e),
        hat.keep (o := .load (.firstFlag k.win)) rfl n⟩
    obtain ⟨hn, hy⟩ := hy
    rw [if_neg hn]
    have htake : takeKeys.All fun o => level o = true ∧ ∀ (j : Schedule) (f : Nat), changes o = some (j, f) →
        x.screen.setting = f :=
      built_takeKeys (All.compositional _) fun _ => All.perform ⟨rfl, by simp [changes]⟩
    refine (hy.stretch hbutton.1 htake).bind fun keys z hz => ?_
    refine Sight.Run.bind (Sight.Run.when (fun _ => hz.run_scheduleUp hbutton.1) fun _ => hz) fun _ z hz => ?_
    refine Sight.Run.bind (Sight.Run.when (fun _ => hz.run_scheduleDown hbutton.1) fun _ => hz) fun _ z hz => ?_
    refine Sight.Run.when (fun _ => hz.run_scheduleSelect hbutton.1 ht hw hf i) fun _ => ?_
    exact ⟨hz.linked hbutton.1 (by simp) hf, ht.congr hz.wins hz.flag⟩

/-! ### Whole runs -/

theorem edit_pass (depth : Nat) (x : Editor) (hx : editing.Rest x) :
    editing.Run (passBody depth) x fun _ y => editing.Rest y := by
  refine editService.run_pass (editService.run_display depth fun n w y hy hw => ?_) x hx
  obtain ⟨hlinked, htidy⟩ := hy
  refine Sight.Run.bind (R := fun _ z => z = y.after (.mark (.winFun w)) ())
    (Sight.Run.perform fun _ _ => ⟨EditSafe.unchanged rfl (by simp [Editor.after, drawnAfter]), rfl⟩) fun _ z hz => ?_
  have hz' : z.Linked := hlinked.keep (hz ▸ rfl) (.inr (hz ▸ rfl))
  have htidy' : Tidy (fun _ => true) z.screen.toStack := by rw [hz]; exact htidy
  have hw' : z.screen.wins.head? = some w := by rw [hz]; exact hw
  cases hs : editorWin w with
  | true =>
    obtain ⟨k, rfl⟩ : ∃ k : Schedule, w = k.win := by
      cases w <;> first | exact ⟨.reminder, rfl⟩ | exact ⟨.automatic, rfl⟩ | cases hs
    have hrun := run_scheduleWinFun n hz' (hz ▸ rfl) htidy' hw'
    cases k <;> exact hrun
  | false =>
    have hclosed : ∀ k : Schedule, z.screen.flag k.win = 0 := by
      intro k
      by_contra hne
      rcases htidy'.lit hw' hne with e | ⟨-, e | e⟩
      · rw [← e, editorWin_win] at hs
        cases hs
      all_goals cases k <;> cases e
    have hcalm : z.Calm none := ⟨hz'.closed hclosed, fun k hk => absurd (hclosed k) hk⟩
    refine (Guide.winFun_tidy (Γ := editGuide none) rfl n hs ⟨hcalm, hs⟩ htidy' hw').mono fun _ u hu => ?_
    exact ⟨Editor.Calm.linked hu.1, hu.2⟩

/-- The editors edit the field that is drawn selected, in a run that keeps to the rule. -/
theorem editors_edit_selected (depth : Nat) (flash : Nat → Nat) (as : List Act)
    (h : (board passCalls depth).Admits (fun cfg a => JumpRule cfg a ∧ EditRule cfg a) (start flash) as) :
    Edits ((board passCalls depth).run (start flash) as) := by
  have hview : editing.view (boot flash) [] = ⟨Screen.blank, none, none⟩ := by
    show editView (boot flash) [] = _
    unfold editView
    rw [screen_boot]
    rfl
  have hcalm : Editor.Calm none ⟨Screen.blank, none, none⟩ := ⟨rfl, fun k hk => absurd rfl hk⟩
  have hrest : editing.Rest (editing.view (boot flash) []) := by
    rw [hview]
    exact ⟨hcalm.linked, rfl, fun u hu => absurd rfl hu⟩
  have hsafe : editing.Safe (editing.view (boot flash) []) := by
    rw [hview]
    exact ⟨fun _ e => absurd e (by simp), fun _ _ e => absurd e (by simp)⟩
  obtain ⟨hsafe', hidle⟩ := Pane.run_settled (fun x hx _ => edit_pass depth x hx) hrest hsafe h rfl
  refine ⟨hsafe'.1, hsafe'.2, fun hnone k hk => ?_⟩
  rcases hidle hnone with hr | hr | hr
  · exact hr.1.shown k hk
  · exact absurd (closed_stale hr.2 k) hk
  · exact absurd (closed_stale hr.1.2 k) hk

/-- The reminder is opened, its weeks and days changed, and saved. -/
def editedReminder : List Act :=
  lcdPass ++ press .k1 ++ lcdPass ++ press .k2 ++ lcdPass ++ lcdPass ++ press .k0 ++ lcdPass ++ press .k2 ++ lcdPass ++
    press .k1 ++ lcdPass ++ press .k2 ++ lcdPass ++ press .k2 ++ lcdPass ++ lcdPass

theorem editors_edit_selected_reminder :
    (board passCalls 2).Admits (fun cfg a => JumpRule cfg a ∧ EditRule cfg a) (start fun _ => 0) editedReminder ∧
    Edits ((board passCalls 2).run (start fun _ => 0) editedReminder) :=
  ⟨by decide +kernel, editors_edit_selected 2 (fun _ => 0) editedReminder (by decide +kernel)⟩

/-- An alert interrupts the editor at its second field. -/
def interruptedReminder : List Act :=
  lcdPass ++ press .k1 ++ lcdPass ++ press .k2 ++ lcdPass ++ lcdPass ++ press .k2 ++ lcdPass ++ batteryReads 2000 ++
    lcdPass ++ lcdPass ++ press .k2 ++ lcdPass ++ lcdPass

/-- The editor draws itself again with the weeks selected, while the keys change the
days. -/
theorem not_edits_interrupted : ¬ Edits ((board passCalls 2).run (start fun _ => 0) interruptedReminder) := by
  intro h
  exact absurd (h.first .reminder (by decide +kernel)) (by decide +kernel)

end Backwash.Lcd
