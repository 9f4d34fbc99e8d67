import Backwash.Settings.Passes

/-! What changes a setting.

A setting is written in one place of the program, the saving branch of its editor, and
an entry in one more, the factory reset. The place is part of the statement: a step that
changes a setting is an operation of that branch, in its window, after K2. Where the
display thread is in its program is a matter of what it has left to do, and in which
window it is of the functions entered so far. -/
namespace Backwash.Settings
open Concurrent Prog System Firmware Motor Desk

/-! ### Places in the program -/

/-- `p` is what is left of `q` at some point, followed by anything. -/
def Within {α β : Type} : Code α → Code β → Prop
  | .ret _, _ => False
  | .op o k, p => (∃ f : α → Code β, p = .op o k >>= f) ∨ ∃ r, Within (k r) p

/-- A value is copied to its setting and to its entry. -/
def saveCopy (setting temp : Var) (id : Nat) : Code Unit := do
  let n ← load temp
  store setting n
  let n ← load temp
  flashSet id n

/-- The saving branches of the editor of a setting. -/
def Setting.branches : Setting → List (Code Unit)
  | .week k | .day k | .enable k => [scheduleSave k]
  | .deltapressEnable => [saveCopy .deltapressEnable .deltapressEnableTemp 7]
  | .settingDeltapress => [saveCopy .settingDeltapress .setDeltaTemp 12]
  | .settingHardness => [saveCopy .settingHardness .setHardnessTemp 13]
  | .settingBackwashtime => [saveCopy .settingBackwashtime .setBackwashTemp 14]
  | .settingLanguage => [saveLanguage 0, saveLanguage 1]

/-- The display thread is somewhere in `q`. -/
def Inside (q : Code Unit) (cfg : Conf) : Prop := ∃ c p, cfg.task .lcd = some (c, p) ∧ Within q p

/-- The display thread is in a saving branch of the setting's editor, which has taken K2. -/
def Saving (a : Setting) (cfg : Conf) : Prop :=
  TookK2 a.win cfg.state cfg.trace ∧ ∃ q ∈ a.branches, Inside q cfg

/-- The display thread is in `Flash_Factory`, called by window 19, which has taken K2. -/
def Resetting (cfg : Conf) : Prop := TookK2 .w19 cfg.state cfg.trace ∧ Inside flashFactory cfg

/-! ### The properties -/

/-- A step that changes a setting in RAM is one of the display thread in a saving branch;
one that changes its entry is that or one of the factory reset. -/
def ChangedBySave (M : System Res Thread Call Device Input) (cfg : Conf) (act : Act) : Prop :=
  ∀ a : Setting,
    ((M.next cfg act).state.vars a.var ≠ cfg.state.vars a.var → (∃ i, act = .step .lcd i) ∧ Saving a cfg) ∧
    ((M.next cfg act).state.flash a.entry ≠ cfg.state.flash a.entry →
      (∃ i, act = .step .lcd i) ∧ (Saving a cfg ∨ Resetting cfg))

/-- Between two passes, and before a reboot, the settings are those stored. -/
def SavedTogether (cfg : Conf) : Prop :=
  cfg.task .lcd = none → rebooted cfg.trace = false → ∀ a : Setting, cfg.state.vars a.var = cfg.state.flash a.entry

/-! ### Where settings are written -/

section
variable {α β γ : Type}

theorem bind_pure (p : Code α) : p >>= pure = p := by
  induction p with
  | ret a => rfl
  | op o k ih => exact congrArg (Prog.op o) (funext ih)

theorem within_self (o : Op) (k : Res o → Code α) : Within (.op o k) (.op o k) := .inl ⟨pure, (bind_pure _).symm⟩

theorem Within.bind {q : Code γ} {p : Code α} (h : Within q p) (f : α → Code β) : Within q (p >>= f) := by
  induction q with
  | ret a => exact h
  | op o k ih =>
    rcases h with ⟨g, rfl⟩ | ⟨r, hr⟩
    · exact .inl ⟨fun c => g c >>= f, Prog.bind_assoc _ _ _⟩
    · exact .inr ⟨r, ih r hr⟩

/-- The operation writes a setting or an entry of one. -/
def writes : Op → Bool
  | .store u _ => (Setting.ofVar u).isSome
  | .efSet id _ => (Setting.ofEntry id).isSome
  | _ => false

/-- The window whose function was entered last, after an operation. -/
def opened (o : Op) (w : Option Win) : Option Win :=
  match o with
  | .mark (.winFun u) => some u
  | _ => w

/-- The operation may be performed in `q`, in window `w`, for all it does to the settings. -/
def Belongs (w : Option Win) (q : Code Unit) (o : Op) : Prop :=
  ∀ a : Setting,
    ((∃ n, o = .store a.var n) → w = some a.win ∧ q ∈ a.branches) ∧
    ((∃ n, o = .efSet a.entry n) → (w = some a.win ∧ q ∈ a.branches) ∨ (w = some .w19 ∧ q = flashFactory))

/-- From window `w` on, settings are written only where that belongs. -/
def Placed (w : Option Win) : Code α → Prop
  | .ret _ => True
  | .op o k => (writes o = true → ∃ q, Within q (Prog.op o k) ∧ Belongs w q o) ∧ ∀ r, Placed (opened o w) (k r)

/-- The operation writes no setting and leaves the window as it is. -/
def quiet (o : Op) : Bool :=
  !writes o && match o with
    | .mark (.winFun _) => false
    | _ => true

theorem opened_of_quiet {o : Op} (h : quiet o = true) (w : Option Win) : opened o w = w := by
  cases o with
  | mark m => cases m <;> first | rfl | cases h
  | _ => rfl

theorem Placed.bind {w : Option Win} {p : Code α} {f : α → Code β} (hp : Placed w p)
    (hf : ∀ a u, Placed u (f a)) : Placed w (p >>= f) := by
  induction p generalizing w with
  | ret a => exact hf a w
  | op o k ih =>
    refine ⟨fun hw => ?_, fun r => ih r (hp.2 r)⟩
    obtain ⟨q, hq, hb⟩ := hp.1 hw
    exact ⟨q, hq.bind f, hb⟩

/-- Before a program that is placed in window `w`, anything quiet may be done there. -/
theorem Placed.after {w : Option Win} {p : Code α} {f : α → Code β} (hp : p.All fun o => quiet o = true)
    (hf : ∀ a, Placed w (f a)) : Placed w (p >>= f) := by
  induction p with
  | ret a => exact hf a
  | op o k ih =>
    refine ⟨fun hw => ?_, fun r => ?_⟩
    · have hq := hp.1
      simp [quiet, hw] at hq
    · rw [opened_of_quiet hp.1]
      exact ih r (hp.2 r)

theorem Placed.quiet {w : Option Win} {p : Code α} (hp : p.All fun o => Settings.quiet o = true) : Placed w p := by
  rw [← bind_pure p]
  exact Placed.after hp fun _ => trivial

theorem Placed.when {w : Option Win} {c : Prop} [Decidable c] {p : Code Unit} (hp : Placed w p) :
    Placed w (when c p) := by
  unfold Prog.when
  split
  · exact hp
  · exact trivial

theorem placed_compositional : Compositional fun {α} (p : Code α) => ∀ w, Placed w p where
  pure _ _ := trivial
  bind hp hf w := (hp w).bind fun a u => hf a u

/-- What is left of a program is placed if its operations belong to the whole. -/
theorem placed_within {w : Option Win} {q : Code Unit} {p : Code α}
    (hp : p.All fun o => opened o w = w ∧ Belongs w q o) (h : ∀ p' : Code α, Within p p' → Within q p') : Placed w p := by
  induction p with
  | ret c => exact trivial
  | op o k ih =>
    obtain ⟨⟨hopen, hbelongs⟩, hall⟩ := hp
    refine ⟨fun _ => ⟨q, h _ (within_self o k), hbelongs⟩, fun r => ?_⟩
    rw [hopen]
    exact ih r (hall r) fun p' hp' => h p' (.inr ⟨r, hp'⟩)

theorem placed_branch {w : Option Win} {q : Code Unit} (hq : q.All fun o => opened o w = w ∧ Belongs w q o) :
    Placed w q :=
  placed_within hq fun _ h => h

theorem belongs_of_quiet {o : Op} (h : Settings.quiet o = true) (w : Option Win) (q : Code Unit) :
    opened o w = w ∧ Belongs w q o := by
  refine ⟨opened_of_quiet h w, fun a => ⟨?_, ?_⟩⟩
  · rintro ⟨n, rfl⟩
    simp [Settings.quiet, writes] at h
  · rintro ⟨n, rfl⟩
    simp [Settings.quiet, writes] at h

theorem belongs_store {w : Option Win} {q : Code Unit} {a : Setting} (hw : w = some a.win) (hq : q ∈ a.branches)
    (n : Nat) : opened (.store a.var n) w = w ∧ Belongs w q (.store a.var n) := by
  refine ⟨rfl, fun b => ⟨?_, fun ⟨m, e⟩ => (by cases e)⟩⟩
  rintro ⟨m, e⟩
  obtain ⟨hvar, -⟩ : a.var = b.var ∧ n = m := by simpa using e
  rw [← Setting.var_injective hvar]
  exact ⟨hw, hq⟩

theorem belongs_entry {w : Option Win} {q : Code Unit} {a : Setting} (hw : w = some a.win) (hq : q ∈ a.branches)
    (n : Nat) : opened (.efSet a.entry n) w = w ∧ Belongs w q (.efSet a.entry n) := by
  refine ⟨rfl, fun b => ⟨fun ⟨m, e⟩ => (by cases e), ?_⟩⟩
  rintro ⟨m, e⟩
  obtain ⟨hentry, -⟩ : a.entry = b.entry ∧ n = m := by simpa using e
  rw [← Setting.entry_injective hentry]
  exact .inl ⟨hw, hq⟩

end

/-! ### The saving branches -/

theorem belongs_flashSet {w : Option Win} {q : Code Unit} {id n : Nat}
    (h : opened (.efSet id n) w = w ∧ Belongs w q (.efSet id n)) :
    (flashSet id n).All fun o => opened o w = w ∧ Belongs w q o :=
  All.bind (All.perform (belongs_of_quiet rfl _ _)) fun _ => All.bind (All.perform h) fun _ =>
    All.perform (o := Op.mdelay 10) (belongs_of_quiet rfl _ _)

theorem placed_saveCopy {a : Setting} {temp : Var} (h : saveCopy a.var temp a.entry ∈ a.branches) :
    Placed (some a.win) (saveCopy a.var temp a.entry) := by
  refine placed_branch (All.bind (All.perform (belongs_of_quiet rfl _ _)) fun n => ?_)
  refine All.bind (All.perform (belongs_store rfl h n)) fun _ => All.bind (All.perform (belongs_of_quiet rfl _ _)) fun m => ?_
  exact belongs_flashSet (belongs_entry rfl h m)

theorem placed_saveLanguage {n : Nat} (h : saveLanguage n ∈ Setting.settingLanguage.branches) :
    Placed (some .w20) (saveLanguage n) := by
  refine placed_branch (All.bind (All.perform (belongs_store (a := .settingLanguage) rfl h n)) fun _ => ?_)
  refine All.bind (All.perform (belongs_of_quiet rfl _ _)) fun m => ?_
  refine All.bind (belongs_flashSet (belongs_entry (a := .settingLanguage) rfl h m)) fun _ => ?_
  exact All.bind (All.perform (belongs_of_quiet rfl _ _)) fun _ => All.perform (belongs_of_quiet rfl _ _)

theorem belongs_schedule {k : Schedule} {o : Op} (ho : saveMay k.win o = true) :
    opened o (some k.win) = some k.win ∧ Belongs (some k.win) (scheduleSave k) o := by
  obtain ⟨hmay, hsaves⟩ := Bool.and_eq_true_iff.mp ho
  refine ⟨?_, fun a => ⟨?_, ?_⟩⟩
  · cases o with
    | mark m => cases m <;> first | rfl | (cases k <;> cases hmay)
    | _ => rfl
  · rintro ⟨n, rfl⟩
    cases a with
    | week j | day j | enable j =>
      cases j <;> cases k <;> first | exact ⟨rfl, List.mem_singleton.mpr rfl⟩ | cases hsaves
    | _ => cases k <;> cases hsaves
  · rintro ⟨n, rfl⟩
    cases a with
    | week j | day j | enable j =>
      cases j <;> cases k <;> first | exact .inl ⟨rfl, List.mem_singleton.mpr rfl⟩ | cases hsaves
    | _ => cases k <;> cases hsaves

theorem placed_scheduleSave (k : Schedule) : Placed (some k.win) (scheduleSave k) :=
  placed_branch (saves_scheduleSave (All.compositional _) k fun _ ho => All.perform (belongs_schedule ho))

theorem placed_flashFactory : Placed (some .w19) flashFactory := by
  have hset : ∀ id n, Belongs (some .w19) flashFactory (.efSet id n) := fun id n a =>
    ⟨fun ⟨m, e⟩ => (by cases e), fun _ => .inr ⟨rfl, rfl⟩⟩
  refine placed_branch (All.bind (All.perform (belongs_of_quiet rfl _ _)) fun _ => ?_)
  refine (All.compositional _).foldr (fun n => ?_) _
  exact All.bind (All.perform (belongs_of_quiet rfl _ _)) fun _ => All.bind (All.perform ⟨rfl, hset n 0⟩) fun _ =>
    All.perform (o := Op.mdelay 10) (belongs_of_quiet rfl _ _)

/-! ### The editors -/

theorem quiet_takeKeys : takeKeys.All fun o => quiet o = true :=
  built_takeKeys (All.compositional _) fun _ => All.perform rfl

theorem quiet_drawButtons (flags : List Nat) : (drawButtons flags).All fun o => quiet o = true :=
  built_drawButtons (All.compositional _) (fun _ _ => ⟨All.perform rfl, All.perform rfl⟩) flags

/-- Of an editor, only what K2 does has to be looked at. -/
theorem placed_editor {w : Win} {u : Option Win} {draw up down save : Code Unit} (hdraw : draw.All fun o => quiet o = true)
    (hup : up.All fun o => quiet o = true) (hdown : down.All fun o => quiet o = true) (hsave : Placed u save) :
    Placed u (window w draw do
      let k ← takeKeys
      when (k.k0 = true) up
      when (k.k1 = true) down
      when (k.k2 = true) save) := by
  have hkeys : Placed u (do
      let k ← takeKeys
      when (k.k0 = true) up
      when (k.k1 = true) down
      when (k.k2 = true) save) :=
    Placed.after quiet_takeKeys fun k => Placed.after (All.when hup) fun _ => Placed.after (All.when hdown) fun _ =>
      hsave.when
  refine Placed.after (All.perform rfl) fun f => ?_
  split
  · exact Placed.quiet hdraw
  · exact hkeys

theorem quiet_of_dial {w : Win} {o : Op} (h : dialMay w o = true) : quiet o = true := by
  cases o with
  | store v n => cases v <;> first | rfl | cases h
  | _ => first | rfl | cases h

theorem placed_edits {w : Win} {u : Option Win} {p save : Code Unit} (h : Edits w p save) (hsave : Placed u save) :
    Placed u p := by
  obtain ⟨draw, up, down, rfl, hdraw, hup, hdown⟩ := h
  refine placed_editor (hdraw.mono ?_) (hup.mono fun _ => quiet_of_dial) (hdown.mono fun _ => quiet_of_dial) hsave
  rintro o (rfl | ho)
  · rfl
  · exact quiet_of_dial ho

section
variable {display : Code Unit}

/-- The window is left, whatever is displayed next. -/
theorem placed_leave (hd : ∀ u, Placed u display) (w : Win) (u : Option Win) : Placed u (do
    guiWinDeleteTop
    display
    store (.firstFlag w) 0) :=
  Placed.after (All.perform rfl) fun _ => (hd u).bind fun _ _ => Placed.quiet (All.perform rfl)

theorem placed_userMain6WinFun (hd : ∀ u, Placed u display) : Placed (some .w6) (userMain6WinFun display) := by
  have hsave : Placed (some .w6) (do
      store (.firstFlag .w6) 0
      saveCopy .deltapressEnable .deltapressEnableTemp 7
      guiWinDeleteTop
      display) :=
    Placed.after (All.perform rfl) fun _ => (placed_saveCopy (a := .deltapressEnable) (List.mem_singleton.mpr rfl)).bind
      fun _ u => Placed.after (All.perform rfl) fun _ => hd u
  exact placed_edits (edits_userMain6WinFun display) hsave

theorem placed_userMain15WinFun (hd : ∀ u, Placed u display) : Placed (some .w15) (userMain15WinFun display) := by
  have hsave : Placed (some .w15) (do
      saveCopy .settingDeltapress .setDeltaTemp 12
      guiWinDeleteTop
      display
      store (.firstFlag .w15) 0) :=
    (placed_saveCopy (a := .settingDeltapress) (List.mem_singleton.mpr rfl)).bind fun _ => placed_leave hd .w15
  exact placed_edits (edits_userMain15WinFun display) hsave

/-- Windows 16 and 17. -/
theorem placed_numberSelect (hd : ∀ u, Placed u display) {a : Setting} {temp : Var}
    (hbranch : saveCopy a.var temp a.entry ∈ a.branches) :
    Placed (some a.win) (numberSelect display a.win a.var temp a.entry) := by
  have hsave : Placed (some a.win) (do
      saveCopy a.var temp a.entry
      guiWinDeleteTop
      display
      store (.firstFlag a.win) 0) :=
    (placed_saveCopy hbranch).bind fun _ => placed_leave hd a.win
  refine Placed.after (All.perform rfl) fun (b : Nat) => ?_
  split
  · exact Placed.quiet (All.bind (All.perform rfl) fun _ => All.bind (all_drawButton rfl rfl) fun _ =>
      all_drawButton rfl rfl)
  · exact hsave
  · exact placed_leave hd a.win _
  · exact trivial

theorem placed_userMain20WinFun : Placed (some .w20) userMain20WinFun := by
  have hbuttons := quiet_drawButtons
  refine placed_editor ?_ ?_ ?_ (Placed.after (All.perform rfl) fun (b : Nat) => ?_)
  · repeat' first
      | with_reducible exact hbuttons _ | intro _ | with_reducible apply All.bind | exact All.perform rfl
  · exact all_nextButton (P := fun o => quiet o = true) rfl (fun _ => rfl) (fun _ _ => all_drawButton rfl rfl) 3 0
  · exact all_previousButton (P := fun o => quiet o = true) rfl (fun _ => rfl) (fun _ _ => all_drawButton rfl rfl) 2
  · split
    · exact placed_saveLanguage (by simp [Setting.branches])
    · exact placed_saveLanguage (by simp [Setting.branches])
    · exact Placed.quiet (All.bind (All.perform rfl) fun _ => All.perform rfl)
    · exact trivial

theorem placed_userMain19WinFun (hd : ∀ u, Placed u display) : Placed (some .w19) (userMain19WinFun display) := by
  refine placed_edits (edits_userMain19WinFun display) (Placed.after (All.perform rfl) fun (b : Nat) => ?_)
  split
  · exact placed_flashFactory.bind fun _ _ => Placed.quiet (All.perform rfl)
  · exact placed_leave hd .w19 _
  · exact trivial

theorem placed_scheduleWinFun (hd : ∀ u, Placed u display) (k : Schedule) :
    Placed (some k.win) (scheduleWinFun display k) := by
  have hselect : Placed (some k.win) (scheduleSelect display k) := by
    refine Placed.after (All.perform rfl) fun (m : Nat) => ?_
    split
    · exact Placed.after (All.perform rfl) fun _ => placed_leave hd k.win _
    · refine Placed.after (All.perform rfl) fun (n : Nat) => ?_
      split
      · exact Placed.quiet (All.bind (all_drawButton rfl rfl) fun _ => All.bind (all_drawButton rfl rfl) fun _ =>
          All.bind (all_drawButton rfl rfl) fun _ => all_incr rfl fun _ => rfl)
      · exact Placed.quiet (All.bind (all_drawButton rfl rfl) fun _ => All.bind (all_drawButton rfl rfl) fun _ =>
          All.bind (all_drawButton rfl rfl) fun _ => all_incr rfl fun _ => rfl)
      · exact placed_scheduleSave k
      · exact trivial
  exact placed_edits (edits_scheduleWinFun k display) hselect

/-! ### Every pass -/

theorem quiet_of_plain {w : Win} {o : Op} (hw : plain w = true) (ho : saveMay w o = true) : quiet o = true := by
  rcases gentle_of_plain hw ho with h | rfl | rfl
  · cases o with
    | store u n => cases u <;> first | rfl | cases h
    | efSet id n =>
      simp only [gentle, aside, Option.isNone_iff_eq_none] at h
      simp [quiet, writes, h]
    | mark m => cases m <;> first | rfl | cases h
    | _ => rfl
  · rfl
  · rfl

theorem placed_perform {o : Op} (h : quiet o = true) (u : Option Win) : Placed u (perform o : Code (Res o)) :=
  Placed.quiet (All.perform h)

theorem placed_winFun (hd : ∀ u, Placed u display) (w : Win) : Placed (some w) (winFun display w) := by
  by_cases hw : plain w = true
  · exact saves_winFun placed_compositional hd (fun o ho => placed_perform (quiet_of_plain hw ho)) (some w)
  · cases w with
    | w4 => exact placed_scheduleWinFun hd .reminder
    | w5 => exact placed_scheduleWinFun hd .automatic
    | w6 => exact placed_userMain6WinFun hd
    | w15 => exact placed_userMain15WinFun hd
    | w16 =>
      exact placed_edits (edits_userMain16WinFun display)
        (placed_numberSelect (a := .settingHardness) hd (List.mem_singleton.mpr rfl))
    | w17 =>
      exact placed_edits (edits_userMain17WinFun display)
        (placed_numberSelect (a := .settingBackwashtime) hd (List.mem_singleton.mpr rfl))
    | w19 => exact placed_userMain19WinFun hd
    | w20 => exact placed_userMain20WinFun
    | _ => exact absurd rfl hw

end

theorem placed_guiWinDisplay (n : Nat) (u : Option Win) : Placed u (guiWinDisplay n) := by
  induction n generalizing u with
  | zero => exact trivial
  | succ n ih =>
    refine Placed.after (All.perform rfl) fun (top : Option Win) => ?_
    cases top with
    | none => exact trivial
    | some w => exact ⟨fun h => absurd h Bool.false_ne_true, fun _ => placed_winFun ih w⟩

theorem placed_motoCycle (caller : Caller) (u : Option Win) : Placed u (motoCycle caller) := by
  refine Placed.quiet (built_motoCycle (All.compositional _) (fun o ho => All.perform ?_) fun _ hp =>
    All.bind (All.perform rfl) fun _ => hp)
  cases o with
  | store v n => cases v <;> first | rfl | cases ho
  | _ => first | rfl | cases ho

theorem placed_lcdTaskEntry (depth : Nat) (u : Option Win) : Placed u (lcdTaskEntry depth) := by
  refine built_lcdTaskEntry placed_compositional (placed_guiWinDisplay depth) ?_ (placed_motoCycle _)
    (fun o ho => placed_perform ?_) u
  · refine built_openLcdDisplay placed_compositional fun o ho => placed_perform ?_
    cases o with
    | store v n => cases v <;> first | rfl | cases ho
    | mark m => cases m <;> first | rfl | cases ho
    | _ => first | rfl | cases ho
  · cases o with
    | store v n => cases v <;> first | rfl | cases ho
    | efSet id n =>
      have hid : id = 9 ∨ id = 10 := by simpa [taskMay] using ho
      rcases hid with rfl | rfl <;> rfl
    | mark m => cases m <;> first | rfl | cases ho
    | _ => rfl

/-! ### Every run -/

theorem win_ne_w19 (a : Setting) : a.win ≠ .w19 := by
  cases a with
  | week k | day k | enable k => cases k <;> simp [Setting.win, Schedule.win]
  | _ => simp [Setting.win]

theorem openWindow_did (t : Thread) (o : Op) (i : Input) (tr : Trace) :
    openWindow (.did t o i :: tr) = opened o (openWindow tr) := by
  cases o with
  | mark m => cases m <;> rfl
  | _ => rfl

/-- What the display thread has left to do is placed in the window it is in. -/
structure Standing (cfg : Conf) : Prop where
  may : Left (fun t _ p => ∀ o, p.head = some o → may t o = true) cfg
  placed : ∀ c p, cfg.task .lcd = some (c, p) → Placed (openWindow cfg.trace) p

section
variable {depth : Nat} {cfg : Conf} {t : Thread} {c : Call} {o : Op} {i : Input} {k : Res o → Code Unit}

theorem placed_body {s : Device} (hready : (board loopCalls depth).ready .lcd c s = true) (u : Option Win) :
    Placed u (body depth c) := by
  have hr : (Thread.lcd = c.thread ∧ loopCalls c = true) ∧ c.enabled s = true := by simpa [board] using hready
  obtain ⟨⟨ht, hc⟩, -⟩ := hr
  cases c with
  | lcdTask => exact placed_lcdTaskEntry depth u
  | motoCycle caller => exact placed_motoCycle caller u
  | scheduleSave k => cases hc
  | _ => cases ht

theorem Standing.next (h : Standing cfg) (act : Act) : Standing ((board loopCalls depth).next cfg act) := by
  refine ⟨h.may.next body_heads act, ?_⟩
  rcases System.next_cases (M := board loopCalls depth) cfg act with hsame | ⟨t, c, rfl, ht, hready⟩ |
    ⟨t, i, c, o, k, rfl, ht⟩
  · rw [hsame]
    exact h.placed
  · rw [System.next_start ht hready]
    intro d q (hq : Function.update cfg.task t _ .lcd = some (d, q))
    by_cases htl : t = .lcd
    · subst htl
      rw [Function.update_self] at hq
      obtain ⟨-, rfl⟩ := System.settle_eq_some hq
      exact placed_body hready _
    · rw [Function.update_of_ne (Ne.symm htl)] at hq
      exact h.placed d q hq
  · rw [System.next_step ht]
    intro d q (hq : Function.update cfg.task t _ .lcd = some (d, q))
    show Placed (openWindow (.did t o i :: cfg.trace)) q
    rw [openWindow_did]
    by_cases htl : t = .lcd
    · subst htl
      rw [Function.update_self] at hq
      obtain ⟨-, rfl⟩ := System.settle_eq_some hq
      exact (h.placed c _ ht).2 _
    · rw [Function.update_of_ne (Ne.symm htl)] at hq
      have hhead : cfg.head t = some o := by simp [Config.head, ht, Prog.head]
      have hopen : opened o (openWindow cfg.trace) = openWindow cfg.trace := by
        have haside := Desk.aside_other htl (head_may h.may hhead)
        cases o with
        | mark m => cases m <;> first | rfl | cases haside
        | _ => rfl
      rw [hopen]
      exact h.placed d q hq

theorem standing_run (depth : Nat) (flash : Nat → Nat) (as : List Act) :
    Standing ((board loopCalls depth).run (start flash) as) :=
  run_invariant Standing (fun _ act h _ => h.next act) ⟨Left.boot _ _, fun _ _ e => nomatch e⟩ (System.admits_true _ as)

/-- A write of a setting stands in one of its branches, and one of an entry there or in
the factory reset. -/
theorem Standing.place (h : Standing cfg) (ht : cfg.task .lcd = some (c, .op o k)) (hw : writes o = true) :
    ∃ q, Inside q cfg ∧ Belongs (openWindow cfg.trace) q o := by
  obtain ⟨q, hq, hb⟩ := (h.placed c _ ht).1 hw
  exact ⟨q, ⟨c, _, ht, hq⟩, hb⟩

/-- Steps that change a setting in RAM store it, and those that change its entry set it. -/
theorem changed_step (a : Setting) (s : Device) :
    ((Firmware.exec t o i s).1.vars a.var ≠ s.vars a.var → ∃ n, o = .store a.var n) ∧
    ((Firmware.exec t o i s).1.flash a.entry ≠ s.flash a.entry → ∃ n, o = .efSet a.entry n) := by
  constructor
  · intro hne
    by_contra hno
    refine hne (exec_vars (fun n e => hno ⟨n, e⟩) (fun w => ?_) ?_ i)
    · cases a <;> simp [Setting.var]
    · cases a <;> simp [Setting.var]
  · intro hne
    by_contra hno
    exact hne (exec_flash (fun n e => hno ⟨n, e⟩) i)

end

theorem changed_by_save (depth : Nat) (flash : Nat → Nat) (as : List Act) (act : Act) :
    ChangedBySave (board loopCalls depth) ((board loopCalls depth).run (start flash) as) act := by
  have hstanding := standing_run depth flash as
  obtain ⟨x, -, hsees, -⟩ := desk_seen depth flash as
  obtain ⟨y, hclear, hsees', -⟩ := desk_seen depth flash (as ++ [act])
  rw [System.run_concat] at hsees'
  generalize (board loopCalls depth).run (start flash) as = cfg at *
  intro a
  rcases System.next_cases (M := board loopCalls depth) cfg act with hsame | ⟨t, c, rfl, ht, hready⟩ |
    ⟨t, i, c, o, k, rfl, ht⟩
  · rw [hsame]
    exact ⟨fun hne => absurd rfl hne, fun hne => absurd rfl hne⟩
  · rw [System.next_start ht hready]
    have hafter := hsees.began (t := t) c
    refine ⟨fun hne => absurd ?_ hne, fun hne => absurd ?_ hne⟩
    · exact (hafter.vars a.var (edited_var a)).1.trans (hsees.vars a.var (edited_var a)).1.symm
    · exact (hafter.flash a).trans (hsees.flash a).symm
  · rw [System.next_step ht] at hsees' ⊢
    have hkey : ByKey (Firmware.exec t o i cfg.state).1 (.did t o i :: cfg.trace) := hsees'.byKey hclear
    have htook : ∀ {w : Win}, o ≠ .semTake .k2 → TookK2 w (Firmware.exec t o i cfg.state).1 cfg.trace →
        TookK2 w cfg.state cfg.trace := fun ho h => ⟨h.1, h.2.1, exec_taken (t := t) ho i ▸ h.2.2⟩
    refine ⟨fun hne => ?_, fun hne => ?_⟩
    · obtain ⟨n, rfl⟩ := (changed_step a cfg.state).1 hne
      obtain ⟨rfl, hk2⟩ := (hkey a).1 ⟨n, rfl⟩
      obtain ⟨q, hq, hbelongs⟩ := hstanding.place ht (by simp [writes])
      exact ⟨⟨i, rfl⟩, htook (by simp) hk2, q, ((hbelongs a).1 ⟨n, rfl⟩).2, hq⟩
    · obtain ⟨n, rfl⟩ := (changed_step a cfg.state).2 hne
      obtain ⟨rfl, hk2⟩ := (hkey a).2 ⟨n, rfl⟩
      obtain ⟨q, hq, hbelongs⟩ := hstanding.place ht (by simp [writes])
      refine ⟨⟨i, rfl⟩, ?_⟩
      -- the window decides which of the two places it is
      rcases (hbelongs a).2 ⟨n, rfl⟩ with ⟨hwin, hbranch⟩ | ⟨hwin, rfl⟩
      · rcases hk2 with hk2 | ⟨hk2, -⟩
        · exact .inl ⟨htook (by simp) hk2, q, hbranch, hq⟩
        · exact absurd (Option.some.inj (hwin.symm.trans hk2.1)) (win_ne_w19 a)
      · rcases hk2 with hk2 | ⟨hk2, -⟩
        · exact absurd (Option.some.inj (hk2.1.symm.trans hwin)) (win_ne_w19 a)
        · exact .inr ⟨htook (by simp) hk2, hq⟩

theorem saved_together (depth : Nat) {flash : Nat → Nat} (h : StoredFits flash) (as : List Act) :
    SavedTogether ((board loopCalls depth).run (start flash) as) := by
  obtain ⟨x, -, hsees, hrest⟩ := desk_seen depth flash as
  intro hidle hreset a
  rw [(hsees.vars a.var (edited_var a)).1, hsees.flash a]
  exact (hrest hidle).equal h (hsees.reset.symm.trans hreset) a

/-- Every step that changes a setting is a save, and after a pass RAM and store agree. -/
theorem settings_change_by_save (depth : Nat) (flash : Nat → Nat) (h : StoredFits flash) (as : List Act) :
    (∀ act, ChangedBySave (board loopCalls depth) ((board loopCalls depth).run (start flash) as) act) ∧
    SavedTogether ((board loopCalls depth).run (start flash) as) :=
  ⟨changed_by_save depth flash as, saved_together depth h as⟩

theorem settings_change_by_save_reminderSaved :
    StoredFits (fun _ => 1) ∧
    (∀ act, ChangedBySave (board loopCalls 2) ((board loopCalls 2).run (start fun _ => 1) reminderSaved) act) ∧
    SavedTogether ((board loopCalls 2).run (start fun _ => 1) reminderSaved) := by
  have hstored : StoredFits fun _ => 1 := fun a => by cases a <;> simp [Setting.var, Var.width]
  exact ⟨hstored, settings_change_by_save 2 (fun _ => 1) hstored reminderSaved⟩

end Backwash.Settings
