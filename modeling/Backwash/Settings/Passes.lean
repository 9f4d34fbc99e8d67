import Backwash.Motor.Cycle
import Backwash.Settings.Desk
import Backwash.Settings.Save

/-! The windows over the desk.

A window that edits nothing leaves the desk tidy. An editor changes its copy until it
takes K2, and then writes the setting and its entry from the same copy; the two
schedules have three of each, and the day is raised where the copies have no period. -/
namespace Backwash.Settings
open Concurrent Prog Firmware Motor Desk

variable {v e : Prop} {depth : Nat} {x : Desk} {α β : Type}

/-! ### Operations and programs that leave the desk tidy -/

/-- Nothing but the copies that belong to no schedule is written. -/
def gentle : Op → Bool
  | .store u n => aside (.store u n) || match u with
    | .deltapressEnableTemp | .setDeltaTemp | .setHardnessTemp | .setBackwashTemp | .setLanguageTemp => true
    | _ => false
  | o => aside o

theorem run_aside {p : Code α} (hp : p.All fun o => aside o = true) (hx : x.fault = false) :
    (desk v e depth).Run p x fun _ y => y = x := by
  refine Sight.Run.all (D := fun y => y = x) (hp.mono fun o ho y r hy _ => ?_) rfl
  have hafter : y.after o r = x := by rw [Desk.after_aside ho, hy]
  exact ⟨show (y.after o r).fault = false from hafter ▸ hx, hafter⟩

theorem run_skip {o : Op} {f : Res o → Code β} {Q : β → Desk → Prop} (ho : aside o = true)
    (hx : x.fault = false) (hf : ∀ r, x.can o r → (desk v e depth).Run (f r) x Q) :
    (desk v e depth).Run (perform o >>= f) x Q := by
  refine Sight.Run.step fun r hr => ?_
  show (x.after o r).fault = false ∧ (desk v e depth).Run (f r) (x.after o r) Q
  rw [Desk.after_aside ho]
  exact ⟨hx, hf r hr⟩

/-- The desk is tidy, in window `w`, where K2 was taken if `b` says so. -/
structure Here (v e : Prop) (w : Win) (b : Bool) (x : Desk) : Prop where
  tidy : x.Tidy v e
  clear : x.fault = false
  win : x.win = some w
  k2 : x.k2 = b

/-- The desk is tidy. -/
structure Clean (v e : Prop) (x : Desk) : Prop where
  tidy : x.Tidy v e
  clear : x.fault = false

section
variable {w : Win} {b : Bool}

theorem Here.clean (h : Here v e w b x) : Clean v e x := ⟨h.tidy, h.clear⟩

theorem Here.at (h : Here v e w true x) : x.at_ w = true := by simp [Desk.at_, h.win, h.k2]

theorem Desk.Tidy.congr {y : Desk} (h : x.Tidy v e) (hv : y.vars = x.vars) (hf : y.flash = x.flash)
    (hr : y.reset = false → x.reset = false) : y.Tidy v e :=
  ⟨fun hvalid k => hv ▸ h.valid hvalid k, fun he hy a => by rw [hv, hf]; exact h.equal he (hr hy) a⟩

/-- A copy is stored. -/
theorem after_copy {u : Var} (hu : Setting.ofVar u = none) (hed : edited u = true) (n : Nat) :
    x.after (.store u n) () = {x with vars := Function.update x.vars u (n % 2 ^ u.width)} := by
  simp [Desk.after, hed, hu]

theorem Clean.gentle {o : Op} (h : Clean v e x) (ho : gentle o = true) (r : Res o) : Clean v e (x.after o r) := by
  by_cases ha : aside o = true
  · rw [Desk.after_aside ha]
    exact h
  · cases o with
    | store u n =>
      have hu : Setting.ofVar u = none ∧ edited u = true ∧
          ∀ k, u ≠ .weekTemp k ∧ u ≠ .dayTemp k ∧ u ≠ .enableTemp k := by
        cases u <;> first
          | exact absurd rfl ha
          | (cases ho; done)
          | exact ⟨rfl, rfl, fun k => ⟨by simp, by simp, by simp⟩⟩
      obtain ⟨hnone, hed, hne⟩ := hu
      rw [after_copy hnone hed]
      exact ⟨h.tidy.set hnone fun _ k => ⟨fun e => absurd e (hne k).1, fun e => absurd e (hne k).2.1,
        fun e => absurd e (hne k).2.2⟩, h.clear⟩
    | _ => exact absurd ho ha

/-- Neither a store of a variable nor of an entry moves the desk. -/
theorem after_place {o : Op} (ho : gentle o = true) (r : Res o) (x : Desk) :
    (x.after o r).win = x.win ∧ (x.after o r).k2 = x.k2 := by
  by_cases ha : aside o = true
  · rw [Desk.after_aside ha]
    exact ⟨rfl, rfl⟩
  · cases o with
    | store u n => simp only [Desk.after]; split <;> exact ⟨rfl, rfl⟩
    | _ => exact absurd ho ha

theorem Here.gentle {o : Op} (h : Here v e w b x) (ho : gentle o = true) (r : Res o) : Here v e w b (x.after o r) := by
  obtain ⟨hwin, hk2⟩ := after_place ho r x
  obtain ⟨htidy, hclear⟩ := h.clean.gentle ho r
  exact ⟨htidy, hclear, hwin.trans h.win, hk2.trans h.k2⟩

theorem run_gentle {p : Code α} (hp : p.All fun o => Settings.gentle o = true) (h : Here v e w b x) :
    (desk v e depth).Run p x fun _ y => Here v e w b y :=
  Sight.Run.all (D := Here v e w b) (hp.mono fun _ ho _ r hy _ => ⟨(hy.gentle ho r).clear, hy.gentle ho r⟩) h

/-- The keys: the desk knows whether K2 was among them. -/
theorem run_takeKeys (h : Here v e w b x) :
    (desk v e depth).Run takeKeys x fun k y => Here v e w k.k2 y := by
  refine run_skip rfl h.clear fun _ _ => run_skip rfl h.clear fun _ _ => Sight.Run.step fun (k2 : Bool) _ => ?_
  have hy : Here v e w k2 {x with k2 := k2} := ⟨h.tidy.congr rfl rfl id, h.clear, h.win, rfl⟩
  exact ⟨hy.clear, run_skip rfl hy.clear fun _ _ => hy⟩

end

/-! ### Windows that edit nothing -/

/-- Windows without a setting, and not the factory reset. -/
def plain (w : Win) : Bool := match w with
  | .w4 | .w5 | .w6 | .w15 | .w16 | .w17 | .w19 | .w20 => false
  | _ => true

theorem gentle_of_plain {w : Win} {o : Op} (hw : plain w = true) (ho : saveMay w o = true) :
    gentle o = true ∨ o = .semTake .k2 ∨ o = .cpuReset := by
  obtain ⟨hwin, hsaves⟩ := Bool.and_eq_true_iff.mp ho
  cases o with
  | store u n =>
    refine .inl ?_
    cases u with
    | week k | day k | enable k | weekTemp k | dayTemp k | enableTemp k =>
      obtain rfl : w = k.win := by simpa [saves] using hsaves
      cases k <;> cases hw
    | deltapressEnable | settingDeltapress | settingHardness | settingBackwashtime | settingLanguage =>
      obtain rfl := by simpa [saves] using hsaves
      cases hw
    | _ => rfl
  | efSet id n =>
    refine .inl ?_
    cases w with
    | w2 | w9 | w10 | w25 | w11 | w12 =>
      obtain rfl : id = _ := by simpa [saves] using hsaves
      rfl
    | w4 | w5 | w6 | w15 | w16 | w17 | w19 | w20 => cases hw
    | _ => cases hsaves
  | semTake k => cases k <;> first | exact .inr (.inl rfl) | exact .inl rfl
  | mark m => cases m <;> first | exact .inl rfl | (cases w <;> first | (cases hw; done) | cases hwin)
  | cpuReset => exact .inr (.inr rfl)
  | _ => exact .inl rfl

/-- What one operation leaves clean, as a program. -/
theorem run_clean {o : Op} (ho : gentle o = true ∨ o = .semTake .k2 ∨ o = .cpuReset) (h : Clean v e x) :
    (desk v e depth).Run (perform o) x fun _ y => Clean v e y := by
  refine Sight.Run.perform fun r _ => ?_
  have hy : Clean v e (x.after o r) := by
    rcases ho with ho | rfl | rfl
    · exact h.gentle ho r
    · exact ⟨h.tidy.congr rfl rfl id, h.clear⟩
    · exact ⟨h.tidy.congr rfl rfl fun hr => absurd hr.symm Bool.false_ne_true, h.clear⟩
  exact ⟨hy.clear, hy⟩

/-- Programs that leave the desk clean. -/
theorem clean_compositional :
    Compositional fun (p : Code _) => ∀ x, Clean v e x → (desk v e depth).Run p x fun _ y => Clean v e y :=
  Sight.Run.compositional _

theorem run_plain {display : Code Unit} (hd : ∀ x, Clean v e x → (desk v e depth).Run display x fun _ y => Clean v e y)
    {w : Win} (hw : plain w = true) (h : Clean v e x) :
    (desk v e depth).Run (winFun display w) x fun _ y => Clean v e y :=
  saves_winFun clean_compositional hd (fun _ ho _ hx => run_clean (gentle_of_plain hw ho) hx) x h

/-! ### A save -/

theorem var_width (a : Setting) : a.var.width ≤ 32 := by
  cases a <;> simp [Setting.var, Var.width]

theorem after_setting {a : Setting} {n : Nat} (hx : x.fault = false) (hat : x.at_ a.win = true)
    (hn : n < 2 ^ a.var.width) :
    x.after (.store a.var n) () = {x with vars := Function.update x.vars a.var n} := by
  simp [Desk.after, hx, hat, Nat.mod_eq_of_lt hn]

theorem after_entry {a : Setting} {n : Nat} (hx : x.fault = false) (hat : x.at_ a.win = true) (hn : n < 2 ^ 32) :
    x.after (.efSet a.entry n) () = {x with flash := Function.update x.flash a.entry n} := by
  have hmod : n % 2 ^ 32 = n := Nat.mod_eq_of_lt hn
  simp only [Desk.after, Setting.ofEntry_entry, Option.isSome_some, if_true, hmod, hx, hat, Option.any_some,
    Bool.true_or, Bool.not_true, Bool.or_self]

/-- A setting is written, and its entry with the same value, after K2 in its window. -/
theorem run_entry {a : Setting} {n : Nat} {p : Code β} {Q : β → Desk → Prop} (hx : x.fault = false)
    (hat : x.at_ a.win = true) (hn : n < 2 ^ 32)
    (hp : (desk v e depth).Run p {x with flash := Function.update x.flash a.entry n} Q) :
    (desk v e depth).Run (do flashSet a.entry n; p) x Q := by
  refine run_skip (o := .efBegin a.entry) rfl hx fun _ _ => Sight.Run.step fun _ _ => ?_
  show (x.after (.efSet a.entry n) ()).fault = false ∧ (desk v e depth).Run _ (x.after (.efSet a.entry n) ()) Q
  rw [after_entry hx hat hn]
  exact ⟨hx, run_skip (x := {x with flash := Function.update x.flash a.entry n}) (o := .mdelay 10) rfl hx fun _ _ => hp⟩

theorem run_save {a : Setting} {temp : Var} {p : Code β} {Q : β → Desk → Prop} (hx : x.fault = false)
    (hat : x.at_ a.win = true) (hed : edited temp = true) (hwidth : temp.width ≤ a.var.width) (hne : temp ≠ a.var)
    (hp : x.vars temp < 2 ^ temp.width → (desk v e depth).Run p (x.save a (x.vars temp)) Q) :
    (desk v e depth).Run (do
      let n ← load temp
      store a.var n
      let n ← load temp
      flashSet a.entry n
      p) x Q := by
  refine run_skip rfl hx fun (n : Nat) hcan => ?_
  obtain ⟨rfl, hlt⟩ := hcan hed
  have hn : x.vars temp < 2 ^ a.var.width := Nat.lt_of_lt_of_le hlt (Nat.pow_le_pow_right Nat.two_pos hwidth)
  refine Sight.Run.step fun _ _ => ?_
  show (x.after (.store a.var (x.vars temp)) ()).fault = false ∧
    (desk v e depth).Run _ (x.after (.store a.var (x.vars temp)) ()) Q
  rw [after_setting hx hat hn]
  refine ⟨hx, run_skip rfl hx fun (m : Nat) hcan => ?_⟩
  obtain ⟨hm, -⟩ := hcan hed
  obtain rfl : m = x.vars temp := by simpa [Function.update_of_ne hne] using hm
  refine run_entry (x := {x with vars := Function.update x.vars a.var (x.vars temp)}) hx hat ?_ (hp hlt)
  exact Nat.lt_of_lt_of_le hn (Nat.pow_le_pow_right Nat.two_pos (var_width a))

/-! ### The editors -/

/-- An editor: it draws itself, or changes its copy with K0 and K1 and saves with K2. -/
theorem run_editor {w : Win} {b : Bool} {draw up down save : Code Unit}
    (hdraw : (desk v e depth).Run draw x fun _ y => Clean v e y)
    (hup : ∀ b y, Here v e w b y → (desk v e depth).Run up y fun _ z => Here v e w b z)
    (hdown : ∀ b y, Here v e w b y → (desk v e depth).Run down y fun _ z => Here v e w b z)
    (hsave : ∀ y, Here v e w true y → (desk v e depth).Run save y fun _ z => Clean v e z) (h : Here v e w b x) :
    (desk v e depth).Run (window w draw do
      let k ← takeKeys
      when (k.k0 = true) up
      when (k.k1 = true) down
      when (k.k2 = true) save) x fun _ y => Clean v e y := by
  refine run_skip rfl h.clear fun _ _ => Sight.Run.ite (fun _ => hdraw) fun _ => ?_
  refine Sight.Run.bind (run_takeKeys h) fun k y hy => ?_
  refine Sight.Run.bind (R := fun _ z => Here v e w k.k2 z) (Sight.Run.when (fun _ => hup _ y hy) fun _ => hy) fun _ z hz => ?_
  refine Sight.Run.bind (R := fun _ z => Here v e w k.k2 z) (Sight.Run.when (fun _ => hdown _ z hz) fun _ => hz) fun _ u hu => ?_
  refine Sight.Run.when (fun hk => hsave u ?_) fun _ => hu.clean
  rwa [hk] at hu

/-- What follows a save, before the next window is displayed. -/
theorem run_tail {o : Op} {p : Code Unit} (ho : aside o = true) (hx : Clean v e x)
    (hp : (desk v e depth).Run p x fun _ y => Clean v e y) :
    (desk v e depth).Run (perform o >>= fun _ => p) x fun _ y => Clean v e y :=
  run_skip ho hx.clear fun _ _ => hp

theorem run_last {o : Op} (ho : aside o = true) (hx : Clean v e x) :
    (desk v e depth).Run (perform o) x fun _ y => Clean v e y := by
  refine run_clean (.inl ?_) hx
  cases o <;> first | exact ho | simp [gentle, ho]

theorem gentle_takeButtons : ∀ flags, (drawButtons flags).All fun o => gentle o = true :=
  built_drawButtons (All.compositional _) fun _ _ => ⟨All.perform rfl, All.perform rfl⟩

section
variable {display : Code Unit} {b : Bool}

theorem Clean.save (h : Clean v e x) {a : Setting} (ha : ∀ k : Schedule, a.win ≠ k.win) (n : Nat) :
    Clean v e (x.save a n) := ⟨h.tidy.save ha n, h.clear⟩

theorem gentle_of_dial {w : Win} {o : Op} (hw : ∀ k : Schedule, w ≠ k.win) (h : dialMay w o = true) : gentle o = true := by
  cases o with
  | store u n =>
    cases u with
    | weekTemp k | dayTemp k | enableTemp k => exact absurd (eq_of_beq h) (hw k)
    | _ => first | rfl | cases h
  | _ => first | rfl | cases h

/-- The windows that edit no schedule. -/
theorem run_edits {w : Win} {p save : Code Unit} (hw : ∀ k : Schedule, w ≠ k.win) (hp : Edits w p save)
    (hsave : ∀ y, Here v e w true y → (desk v e depth).Run save y fun _ z => Clean v e z) (h : Here v e w b x) :
    (desk v e depth).Run p x fun _ y => Clean v e y := by
  obtain ⟨draw, up, down, rfl, hdraw, hup, hdown⟩ := hp
  refine run_editor ((run_gentle (hdraw.mono ?_) h).mono fun _ _ hy => hy.clean)
    (fun _ y hy => run_gentle (hup.mono fun _ => gentle_of_dial hw) hy)
    (fun _ y hy => run_gentle (hdown.mono fun _ => gentle_of_dial hw) hy) hsave h
  rintro o (rfl | ho)
  · rfl
  · exact gentle_of_dial hw ho

theorem run_userMain6WinFun (hd : ∀ x, Clean v e x → (desk v e depth).Run display x fun _ y => Clean v e y)
    (h : Here v e .w6 b x) : (desk v e depth).Run (userMain6WinFun display) x fun _ y => Clean v e y := by
  refine run_edits (fun k => by cases k <;> decide) (edits_userMain6WinFun display) (fun y hy => ?_) h
  refine run_skip rfl hy.clear fun _ _ => run_save (a := .deltapressEnable) hy.clear hy.at rfl (by decide) (by decide)
    fun _ => ?_
  have hz : Clean v e (y.save .deltapressEnable (y.vars .deltapressEnableTemp)) :=
    hy.clean.save (fun k => by cases k <;> decide) _
  exact run_tail rfl hz (hd _ hz)

/-- The window is left: the next one is displayed, then the flag is cleared. -/
theorem run_leave (hd : ∀ x, Clean v e x → (desk v e depth).Run display x fun _ y => Clean v e y) (w : Win)
    (h : Clean v e x) : (desk v e depth).Run (do
      guiWinDeleteTop
      display
      store (.firstFlag w) 0) x fun _ y => Clean v e y :=
  run_tail rfl h (Sight.Run.bind (hd _ h) fun _ _ hy => run_last rfl hy)

theorem run_userMain15WinFun (hd : ∀ x, Clean v e x → (desk v e depth).Run display x fun _ y => Clean v e y)
    (h : Here v e .w15 b x) : (desk v e depth).Run (userMain15WinFun display) x fun _ y => Clean v e y := by
  refine run_edits (fun k => by cases k <;> decide) (edits_userMain15WinFun display) (fun y hy => ?_) h
  refine run_save (a := .settingDeltapress) hy.clear hy.at rfl (by decide) (by decide) fun _ => ?_
  exact run_leave hd .w15 (hy.clean.save (fun k => by cases k <;> decide) _)

/-- Windows 16 and 17. -/
theorem run_numberSelect (hd : ∀ x, Clean v e x → (desk v e depth).Run display x fun _ y => Clean v e y)
    {a : Setting} {temp : Var} (ha : ∀ k : Schedule, a.win ≠ k.win) (htemp : edited temp = true)
    (hwidth : temp.width ≤ a.var.width) (hne : temp ≠ a.var) {y : Desk} (hy : Here v e a.win true y) :
    (desk v e depth).Run (numberSelect display a.win a.var temp a.entry) y fun _ z => Clean v e z := by
  refine run_skip rfl hy.clear fun (n : Nat) _ => ?_
  split
  · refine (run_gentle ?_ hy).mono fun _ _ hz => hz.clean
    exact All.bind (All.perform rfl) fun _ => All.bind (all_drawButton rfl rfl) fun _ => all_drawButton rfl rfl
  · refine run_save hy.clear hy.at htemp hwidth hne fun _ => ?_
    exact run_leave hd a.win (hy.clean.save ha _)
  · exact run_leave hd a.win hy.clean
  · exact hy.clean

theorem run_saveLanguage (h : Here v e .w20 true x) {n : Nat} (hn : n < 2 ^ 8) :
    (desk v e depth).Run (saveLanguage n) x fun _ y => Clean v e y := by
  refine Sight.Run.step fun _ _ => ?_
  show (x.after (.store Setting.settingLanguage.var n) ()).fault = false ∧
    (desk v e depth).Run _ (x.after (.store Setting.settingLanguage.var n) ()) _
  rw [after_setting (a := .settingLanguage) h.clear h.at hn]
  refine ⟨h.clear, run_skip rfl h.clear fun (m : Nat) hcan => ?_⟩
  obtain ⟨hm, -⟩ := hcan rfl
  obtain rfl : m = n := by simpa [Setting.var] using hm
  refine run_entry (x := {x with vars := Function.update x.vars Setting.settingLanguage.var m})
    (a := .settingLanguage) h.clear h.at (by omega) ?_
  have hy : Clean v e (x.save .settingLanguage m) := h.clean.save (fun k => by cases k <;> decide) m
  exact run_tail rfl hy (run_last rfl hy)

theorem run_userMain20WinFun (h : Here v e .w20 b x) :
    (desk v e depth).Run userMain20WinFun x fun _ y => Clean v e y := by
  have hbuttons := gentle_takeButtons
  refine run_editor ((run_gentle ?_ h).mono fun _ _ hy => hy.clean) (fun _ y hy => run_gentle ?_ hy)
    (fun _ y hy => run_gentle ?_ hy) (fun y hy => ?_) h
  · repeat' first
      | with_reducible exact hbuttons _ | intro _ | with_reducible apply All.bind | exact All.perform rfl
  · exact all_nextButton (P := fun o => gentle o = true) rfl (fun _ => rfl) (fun _ _ => all_drawButton rfl rfl) 3 0
  · exact all_previousButton (P := fun o => gentle o = true) rfl (fun _ => rfl) (fun _ _ => all_drawButton rfl rfl) 2
  · refine run_skip rfl hy.clear fun (n : Nat) _ => ?_
    split
    · exact run_saveLanguage hy (by decide)
    · exact run_saveLanguage hy (by decide)
    · exact run_tail rfl hy.clean (run_last rfl hy.clean)
    · exact hy.clean

/-- The factory reset writes entries only, and the reset follows. -/
theorem run_factory (h : Here v e .w19 true x) :
    (desk v e depth).Run (do flashFactory; cpuReset) x fun _ y => Clean v e y := by
  let D (y : Desk) : Prop := y.vars = x.vars ∧ y.fault = false ∧ y.at_ .w19 = true ∧ y.factory = true
  have hset : ∀ (o : Op) (y : Desk) (r : Res o), (aside o = true ∨ ∃ n, o = .efSet n 0) → D y → D (y.after o r) := by
    rintro o y r (ho | ⟨n, rfl⟩) ⟨hvars, hclear, hat, hfactory⟩
    · rw [Desk.after_aside ho]
      exact ⟨hvars, hclear, hat, hfactory⟩
    · simp only [Desk.after]
      split
      · exact ⟨hvars, by cases hn : Setting.ofEntry n <;> simp [hclear, hat, hfactory], hat, hfactory⟩
      · exact ⟨hvars, hclear, hat, hfactory⟩
  have hall : ((List.range 18).foldr (fun i rest => do flashSet i 0; rest) (pure ()) : Code Unit).All fun o =>
      aside o = true ∨ ∃ n, o = .efSet n 0 := by
    refine (All.compositional _).foldr (fun n => ?_) _
    exact All.bind (All.perform (.inl rfl)) fun _ => All.bind (All.perform (.inr ⟨n, rfl⟩)) fun _ =>
      All.perform (o := Op.mdelay 10) (.inl rfl)
  have hstart : D {x with factory := true} := ⟨rfl, h.clear, h.at, rfl⟩
  refine Sight.Run.step fun _ _ => ⟨h.clear, ?_⟩
  refine Sight.Run.bind (Sight.Run.all (V := (desk v e depth).toSight) (D := D) (hall.mono fun o ho y r hy _ =>
    ⟨(hset o y r ho hy).2.1, hset o y r ho hy⟩) hstart) fun _ y hy => ?_
  refine Sight.Run.perform fun _ _ => ⟨hy.2.1, ⟨fun hv k => ?_, fun _ hr => absurd hr.symm Bool.false_ne_true⟩, hy.2.1⟩
  show Sound y.vars k
  rw [hy.1]
  exact h.tidy.valid hv k

theorem run_userMain19WinFun (hd : ∀ x, Clean v e x → (desk v e depth).Run display x fun _ y => Clean v e y)
    (h : Here v e .w19 b x) : (desk v e depth).Run (userMain19WinFun display) x fun _ y => Clean v e y := by
  refine run_edits (fun k => by cases k <;> decide) (edits_userMain19WinFun display) (fun y hy => ?_) h
  refine run_skip rfl hy.clear fun (n : Nat) _ => ?_
  split
  · exact run_factory hy
  · exact run_leave hd .w19 hy.clean
  · exact hy.clean

/-! ### The schedule editors -/

/-- The copies of a schedule. -/
def copies (k : Schedule) : List Var := [.weekTemp k, .dayTemp k, .enableTemp k]

/-- A copy may have the value `n`. -/
def Fits (u : Var) (n : Nat) : Prop :=
  ∀ k, (u = .weekTemp k → n ≤ 51) ∧ (u = .dayTemp k → n ≤ 6) ∧ (u = .enableTemp k → n ≤ 2)

theorem fits_week {k : Schedule} {n : Nat} (h : n ≤ 51) : Fits (.weekTemp k) n := fun j => ⟨fun _ => h, by simp, by simp⟩

theorem fits_day {k : Schedule} {n : Nat} (h : n ≤ 6) : Fits (.dayTemp k) n := fun j => ⟨by simp, fun _ => h, by simp⟩

theorem fits_enable {k : Schedule} {n : Nat} (h : n ≤ 2) : Fits (.enableTemp k) n := fun j => ⟨by simp, by simp, fun _ => h⟩

variable {w : Win} {k : Schedule} {u : Var} {n : Nat}

theorem copies_width (hu : u ∈ copies k) : Setting.ofVar u = none ∧ edited u = true ∧ u.width = 8 := by
  simp only [copies, List.mem_cons, List.not_mem_nil, or_false] at hu
  rcases hu with rfl | rfl | rfl <;> exact ⟨rfl, rfl, rfl⟩

theorem Here.set (h : Here v e w b x) (hu : u ∈ copies k) (hn : v → Fits u n) :
    Here v e w b {x with vars := Function.update x.vars u n} :=
  ⟨h.tidy.set (copies_width hu).1 hn, h.clear, h.win, h.k2⟩

/-- A copy is stored, last of all. -/
theorem run_set (h : Here v e w b x) (hu : u ∈ copies k) (hn : v → Fits u (n % 2 ^ 8)) :
    (desk v e depth).Run (store u n) x fun _ y => Here v e w b y := by
  obtain ⟨hnone, hed, hwidth⟩ := copies_width hu
  refine Sight.Run.perform fun r _ => ?_
  have hy : Here v e w b (x.after (.store u n) ()) := by
    rw [after_copy hnone hed, hwidth]
    exact h.set hu hn
  exact ⟨hy.clear, hy⟩

/-- A copy is read, changed, and put right where the change left its range. -/
theorem run_wrap {g : Nat → Nat} {c : Nat → Prop} [DecidablePred c] {top : Nat} (h : Here v e w b x) (hu : u ∈ copies k)
    (htop : v → Fits u (top % 2 ^ 8)) (hin : v → ¬ c (x.vars u) → Fits u (g (x.vars u) % 2 ^ 8)) :
    (desk v e depth).Run (do
      let n ← load u
      store u (g n)
      when (c n) (store u top)) x fun _ y => Here v e w b y := by
  obtain ⟨hnone, hed, hwidth⟩ := copies_width hu
  refine run_skip rfl h.clear fun (n : Nat) hcan => ?_
  obtain ⟨rfl, -⟩ := hcan hed
  refine Sight.Run.step fun _ _ => ?_
  show (x.after (.store u (g (x.vars u))) ()).fault = false ∧
    (desk v e depth).Run _ (x.after (.store u (g (x.vars u))) ()) _
  rw [after_copy hnone hed, hwidth]
  refine ⟨h.clear, Sight.Run.when (fun _ => ?_) fun hc => h.set hu fun hv => hin hv hc⟩
  have hy : Here v e w b (Desk.after (.store u top) ()
      {x with vars := Function.update x.vars u (g (x.vars u) % 2 ^ 8)}) := by
    rw [after_copy hnone hed, hwidth, Function.update_idem]
    exact h.set hu htop
  exact Sight.Run.perform fun _ _ => ⟨hy.clear, hy⟩

theorem run_scheduleDraw (h : Here v e w b x) :
    (desk v e depth).Run (scheduleDraw k) x fun _ y => Here v e w b y := by
  have hweek : v → x.vars (.week k) ≤ 51 := fun hv => (h.tidy.valid hv k).schedule.week
  refine run_skip rfl h.clear fun (n : Nat) hcan => ?_
  obtain ⟨rfl, -⟩ := hcan rfl
  refine Sight.Run.bind (run_set (k := k) h (by simp [copies]) fun hv =>
    fits_week (Nat.le_trans (Nat.mod_le _ _) (hweek hv))) fun _ y hy => ?_
  have hday : v → y.vars (.day k) ≤ 6 := fun hv => (hy.tidy.valid hv k).schedule.day
  refine run_skip rfl hy.clear fun (n : Nat) hcan => ?_
  obtain ⟨rfl, -⟩ := hcan rfl
  refine Sight.Run.bind (run_set (k := k) hy (by simp [copies]) fun hv =>
    fits_day (Nat.le_trans (Nat.mod_le _ _) (hday hv))) fun _ z hz => ?_
  have henable : v → z.vars (.enable k) ≤ 2 := fun hv => Nat.le_succ_of_le (hz.tidy.valid hv k).schedule.enable
  refine run_skip rfl hz.clear fun (n : Nat) hcan => ?_
  obtain ⟨rfl, -⟩ := hcan rfl
  refine Sight.Run.bind (run_set (k := k) hz (by simp [copies]) fun hv =>
    fits_enable (Nat.le_trans (Nat.mod_le _ _) (henable hv))) fun _ u hu => run_gentle ?_ hu
  simp only [drawButton]
  repeat' first | intro _ | with_reducible apply All.bind | exact All.perform rfl

theorem gentle_drawEnable : (drawEnable k).All fun o => gentle o = true := by
  simp only [drawEnable]
  repeat' first | intro _ | with_reducible apply All.bind | with_reducible apply All.when | exact All.perform rfl

theorem gentle_redraw (u : Var) (t : Text) (i : Nat) : (do
    let n ← load u
    sprintf t n
    guiButton i : Code Unit).All fun o => gentle o = true :=
  All.bind (All.perform rfl) fun _ => All.bind (All.perform rfl) fun _ => All.perform rfl

theorem run_scheduleUp (h : Here v e w b x) :
    (desk v e depth).Run (scheduleUp k) x fun _ y => Here v e w b y := by
  refine run_skip rfl h.clear fun (n : Nat) _ => ?_
  split
  · refine Sight.Run.bind (run_wrap (k := k) h (by simp [copies]) (fun _ => fits_week (by decide)) fun hv hc => fits_week ?_)
      fun _ y hy => run_gentle (gentle_redraw ..) hy
    have hle := (h.tidy.valid hv k).weekTemp
    simp only [Var.width]
    omega
  · refine Sight.Run.bind (run_wrap (k := k) h (by simp [copies]) (fun _ => fits_day (by decide)) fun hv hc => fits_day ?_)
      fun _ y hy => run_gentle (gentle_redraw ..) hy
    have hle := (h.tidy.valid hv k).dayTemp
    simp only [Var.width]
    omega
  · refine run_skip rfl h.clear fun (m : Nat) hcan => ?_
    obtain ⟨rfl, -⟩ := hcan rfl
    refine Sight.Run.bind (R := fun _ y => Here v e w b y) (Sight.Run.ite (fun hpos => ?_) fun _ => ?_)
      fun _ y hy => run_gentle gentle_drawEnable hy
    · refine run_skip rfl h.clear fun (m : Nat) hcan => ?_
      obtain ⟨rfl, -⟩ := hcan rfl
      refine run_set (k := k) h (by simp [copies]) fun hv => fits_enable ?_
      have hle := (h.tidy.valid hv k).enableTemp
      simp only [Var.width]
      omega
    · exact run_set (k := k) h (by simp [copies]) fun _ => fits_enable (by decide)
  · exact h

theorem run_scheduleDown (h : Here v e w b x) :
    (desk v e depth).Run (scheduleDown k) x fun _ y => Here v e w b y := by
  refine run_skip rfl h.clear fun (n : Nat) _ => ?_
  split
  · refine Sight.Run.bind (run_wrap (k := k) h (by simp [copies]) (fun _ => fits_week (by decide)) fun hv hc => fits_week ?_)
      fun _ y hy => run_gentle (gentle_redraw ..) hy
    omega
  · refine Sight.Run.bind (run_wrap (k := k) h (by simp [copies]) (fun _ => fits_day (by decide)) fun hv hc => fits_day ?_)
      fun _ y hy => run_gentle (gentle_redraw ..) hy
    omega
  · refine run_skip rfl h.clear fun (m : Nat) hcan => ?_
    obtain ⟨rfl, -⟩ := hcan rfl
    refine Sight.Run.bind (R := fun _ y => Here v e w b y) (Sight.Run.ite (fun hpos => ?_) fun _ => ?_)
      fun _ y hy => run_gentle gentle_drawEnable hy
    · refine run_skip rfl h.clear fun (m : Nat) hcan => ?_
      obtain ⟨rfl, -⟩ := hcan rfl
      exact run_set (k := k) h (by simp [copies]) fun _ => fits_enable (by omega)
    · exact run_set (k := k) h (by simp [copies]) fun _ => fits_enable (by decide)
  · exact h

/-- The three fields are saved from valid copies that have a period. -/
theorem Here.saved (h : Here v e w b x) (he : v → x.vars (.enableTemp k) ≠ 2)
    (hp : v → 1 ≤ 7 * x.vars (.weekTemp k) + x.vars (.dayTemp k)) :
    Clean v e (((x.save (.week k) (x.vars (.weekTemp k))).save (.day k) (x.vars (.dayTemp k))).save (.enable k)
      (x.vars (.enableTemp k))) := by
  refine ⟨⟨fun hv j => ?_, fun heq hr => save_equal (save_equal (save_equal (h.tidy.equal heq hr) _) _) _⟩, h.clear⟩
  have hold := h.tidy.valid hv j
  by_cases hjk : j = k
  · subst hjk
    have hle := hold.enableTemp
    have hne := he hv
    refine ⟨⟨?_, ?_, ?_, ?_⟩, ?_, ?_, ?_⟩ <;> simp [Desk.save, Setting.var, hold.weekTemp, hold.dayTemp, hold.enableTemp]
    · omega
    · exact fun _ => hp hv
  · refine ⟨?_, ?_, ?_, ?_⟩ <;>
      simp [Desk.save, Setting.var, hjk, hold.weekTemp, hold.dayTemp, hold.enableTemp, hold.schedule]

theorem run_scheduleSave (h : Here v e k.win true x) (he : v → x.vars (.enableTemp k) ≠ 2) :
    (desk v e depth).Run (scheduleSave k) x fun _ y => Clean v e y := by
  refine run_skip rfl h.clear fun _ _ => run_skip rfl h.clear fun _ _ => ?_
  refine run_skip rfl h.clear fun (m : Nat) hm => run_skip rfl h.clear fun (d : Nat) hd => ?_
  obtain ⟨rfl, -⟩ := hm rfl
  obtain ⟨rfl, hlt⟩ := hd rfl
  -- the copies have a period from here on
  refine Sight.Run.bind (R := fun _ y => Here v e k.win true y ∧ y.vars (.enableTemp k) = x.vars (.enableTemp k) ∧
      1 ≤ 7 * y.vars (.weekTemp k) + y.vars (.dayTemp k)) (Sight.Run.when (fun hz => ?_) fun hz => ?_) fun _ y hy => ?_
  · have hset := h.set (k := k) (u := .dayTemp k) (n := 1) (by simp [copies]) fun _ => fits_day (by decide)
    have hperiod : 1 ≤ 7 * Function.update x.vars (.dayTemp k) 1 (.weekTemp k) +
        Function.update x.vars (.dayTemp k) 1 (.dayTemp k) := by
      rw [Function.update_self]
      omega
    refine Sight.Run.perform fun _ _ => ?_
    have hafter : (desk v e depth).after (.store (.dayTemp k) 1) () x =
        {x with vars := Function.update x.vars (.dayTemp k) 1} := after_copy (u := .dayTemp k) rfl rfl 1
    have henable : Function.update x.vars (.dayTemp k) 1 (.enableTemp k) = x.vars (.enableTemp k) := by simp
    rw [hafter]
    exact ⟨h.clear, hset, henable, hperiod⟩
  · refine ⟨h, rfl, ?_⟩
    by_contra hn
    exact hz ⟨by omega, by omega⟩
  · obtain ⟨hy, henable, hperiod⟩ := hy
    have hsaved := hy.saved (k := k) (by rw [henable]; exact he) fun _ => hperiod
    have hat := hy.at
    have hwidth : (Var.weekTemp k).width ≤ (Setting.week k).var.width := by simp [Setting.var, Var.width]
    refine run_save (a := .week k) hy.clear hat rfl hwidth (by simp [Setting.var]) fun _ => ?_
    refine run_save (a := .day k) hy.clear hat rfl hwidth (by simp [Setting.var]) fun _ => run_skip rfl hy.clear fun _ _ => ?_
    refine run_save (a := .enable k) hy.clear hat rfl hwidth (by simp [Setting.var]) fun _ => ?_
    refine run_last rfl ?_
    rw [show ((y.save (.week k) (y.vars (.weekTemp k))).save (.day k) ((y.save (.week k) (y.vars (.weekTemp k))).vars
        (.dayTemp k))).vars (.enableTemp k) = y.vars (.enableTemp k) by simp [Desk.save, Setting.var],
      show (y.save (.week k) (y.vars (.weekTemp k))).vars (.dayTemp k) = y.vars (.dayTemp k) by
        simp [Desk.save, Setting.var]]
    exact hsaved

theorem run_scheduleSelect (hd : ∀ x, Clean v e x → (desk v e depth).Run display x fun _ y => Clean v e y)
    (h : Here v e k.win true x) : (desk v e depth).Run (scheduleSelect display k) x fun _ y => Clean v e y := by
  refine run_skip rfl h.clear fun (m : Nat) hcan => ?_
  obtain ⟨rfl, -⟩ := hcan rfl
  refine Sight.Run.ite (fun _ => run_skip rfl h.clear fun _ _ => run_leave hd k.win h.clean) fun hne => ?_
  refine run_skip rfl h.clear fun (n : Nat) _ => ?_
  split
  · refine (run_gentle ?_ h).mono fun _ _ hy => hy.clean
    exact All.bind (all_drawButton rfl rfl) fun _ => All.bind (all_drawButton rfl rfl) fun _ =>
      All.bind (all_drawButton rfl rfl) fun _ => all_incr rfl fun _ => rfl
  · refine (run_gentle ?_ h).mono fun _ _ hy => hy.clean
    exact All.bind (all_drawButton rfl rfl) fun _ => All.bind (all_drawButton rfl rfl) fun _ =>
      All.bind (all_drawButton rfl rfl) fun _ => all_incr rfl fun _ => rfl
  · exact run_scheduleSave h fun _ => hne
  · exact h.clean

theorem run_scheduleWinFun (hd : ∀ x, Clean v e x → (desk v e depth).Run display x fun _ y => Clean v e y)
    (h : Here v e k.win b x) : (desk v e depth).Run (scheduleWinFun display k) x fun _ y => Clean v e y :=
  run_editor ((run_scheduleDraw h).mono fun _ _ hy => hy.clean) (fun _ _ hy => run_scheduleUp hy)
    (fun _ _ hy => run_scheduleDown hy) (fun _ hy => run_scheduleSelect hd hy) h

end

/-! ### Every pass -/

theorem run_winFun {display : Code Unit} (hd : ∀ x, Clean v e x → (desk v e depth).Run display x fun _ y => Clean v e y)
    {w : Win} (h : Here v e w false x) : (desk v e depth).Run (winFun display w) x fun _ y => Clean v e y := by
  by_cases hw : plain w = true
  · exact run_plain hd hw h.clean
  · cases w with
    | w4 => exact run_scheduleWinFun (k := .reminder) hd h
    | w5 => exact run_scheduleWinFun (k := .automatic) hd h
    | w6 => exact run_userMain6WinFun hd h
    | w15 => exact run_userMain15WinFun hd h
    | w16 =>
      exact run_edits (fun k => by cases k <;> decide) (edits_userMain16WinFun display) (fun y hy => run_numberSelect
        (a := .settingHardness) hd (fun k => by cases k <;> decide) rfl (by decide) (by decide) hy) h
    | w17 =>
      exact run_edits (fun k => by cases k <;> decide) (edits_userMain17WinFun display) (fun y hy => run_numberSelect
        (a := .settingBackwashtime) hd (fun k => by cases k <;> decide) rfl (by decide) (by decide) hy) h
    | w19 => exact run_userMain19WinFun hd h
    | w20 => exact run_userMain20WinFun h
    | _ => exact absurd rfl hw

theorem run_guiWinDisplay (n : Nat) (h : Clean v e x) :
    (desk v e depth).Run (guiWinDisplay n) x fun _ y => Clean v e y := by
  induction n generalizing x with
  | zero => exact h
  | succ n ih =>
    refine run_skip rfl h.clear fun (top : Option Win) _ => ?_
    cases top with
    | none => exact h
    | some w =>
      have hy : Here v e w false {x with win := some w, k2 := false, factory := false} :=
        ⟨h.tidy.congr rfl rfl id, h.clear, rfl, rfl⟩
      exact Sight.Run.step fun _ _ => ⟨hy.clear, run_winFun (fun _ hx => ih hx) hy⟩

theorem clean_of_aside {o : Op} (ho : aside o = true) : ∀ x, Clean v e x →
    (desk v e depth).Run (perform o) x fun _ y => Clean v e y := fun _ hx => run_last ho hx

theorem run_motoCycle (caller : Caller) (h : Clean v e x) :
    (desk v e depth).Run (motoCycle caller) x fun _ y => Clean v e y := by
  refine built_motoCycle (Q := fun p => ∀ x, Clean v e x → (desk v e depth).Run p x fun _ y => Clean v e y)
    (@clean_compositional v e depth) (fun o ho => clean_of_aside ?_) (fun p hp => ?_) x h
  · cases o with
    | store u n => cases u <;> first | rfl | cases ho
    | _ => first | rfl | cases ho
  · exact clean_compositional.bind (clean_of_aside rfl) fun _ => hp

theorem run_lcdTaskEntry (h : Clean v e x) :
    (desk v e depth).Run (lcdTaskEntry depth) x fun _ y => Clean v e y := by
  refine built_lcdTaskEntry (@clean_compositional v e depth) (fun _ hx => run_guiWinDisplay depth hx) ?_
    (fun _ hx => run_motoCycle _ hx) (fun o ho => clean_of_aside ?_) x h
  · refine built_openLcdDisplay (@clean_compositional v e depth) fun o ho => clean_of_aside ?_
    cases o with
    | store u n => cases u <;> first | rfl | cases ho
    | mark m => cases m <;> first | rfl | cases ho
    | _ => first | rfl | cases ho
  · cases o with
    | store u n => cases u <;> first | rfl | cases ho
    | efSet id n =>
      have hid : id = 9 ∨ id = 10 := by simpa [taskMay] using ho
      rcases hid with rfl | rfl <;> rfl
    | mark m => cases m <;> first | rfl | cases ho
    | _ => first | rfl | cases ho

/-! ### The start -/

/-- The stored values fit their variables, and those of `as` have been loaded. -/
structure Loaded (as : List Setting) (s : Device) : Prop where
  fits : ∀ a : Setting, s.flash a.entry < 2 ^ a.var.width
  equal : ∀ a ∈ as, s.vars a.var = s.flash a.entry

/-- `p` takes what has been loaded from `as` to `bs`. -/
def Loads (as bs : List Setting) (p : Code Unit) : Prop := ∀ s, Loaded as s → Loaded bs (atomically .lcd p s)

section
variable {as bs : List Setting} {p : Code Unit}

theorem loads_setting (a : Setting) (h : Loads (a :: as) bs p) :
    Loads as bs (do let n ← flashGet a.entry; store a.var n; p) := by
  refine fun s hs => h (s.store a.var (s.flash a.entry)) ⟨hs.fits, fun b hb => ?_⟩
  by_cases hba : b = a
  · subst hba
    simp [Device.store, Nat.mod_eq_of_lt (hs.fits b)]
  · have hvar : b.var ≠ a.var := fun e => hba (Setting.var_injective e)
    have hmem : b ∈ as := (List.mem_cons.mp hb).resolve_left hba
    simp only [Device.store, Function.update_of_ne hvar]
    exact hs.equal b hmem

theorem loads_counter (c : Counter) (id : Nat) (h : Loads as bs p) :
    Loads as bs (do let n ← flashGet id; store (.counter c) n; p) := by
  refine fun s hs => h (s.store (.counter c) (s.flash id)) ⟨hs.fits, fun b hb => ?_⟩
  have hvar : b.var ≠ .counter c := by cases b <;> simp [Setting.var]
  simp only [Device.store, Function.update_of_ne hvar]
  exact hs.equal b hb

/-- A value out of range is replaced, in RAM and in the store. -/
theorem loads_default {a : Setting} {n : Nat} (hn : n < 2 ^ a.var.width) : Loads as as (do
    store a.var n
    let m ← load a.var
    flashSet a.entry m) := by
  intro s hs
  have hvalue : (s.store a.var n).vars a.var = n := by simp [Device.store, Nat.mod_eq_of_lt hn]
  have hmod : n % 2 ^ 32 = n :=
    Nat.mod_eq_of_lt (Nat.lt_of_lt_of_le hn (Nat.pow_le_pow_right Nat.two_pos (var_width a)))
  have hflash : (atomically .lcd (do store a.var n; let m ← load a.var; flashSet a.entry m) s).flash =
      Function.update s.flash a.entry n := by
    show Function.update s.flash a.entry ((s.store a.var n).vars a.var % 2 ^ 32) = _
    rw [hvalue, hmod]
  have hvars : (atomically .lcd (do store a.var n; let m ← load a.var; flashSet a.entry m) s).vars =
      (s.store a.var n).vars := rfl
  refine ⟨fun b => ?_, fun b hb => ?_⟩
  · rw [hflash]
    by_cases hba : b = a
    · subst hba
      simpa using hn
    · rw [Function.update_of_ne fun e => hba (Setting.entry_injective e)]
      exact hs.fits b
  · rw [hflash, hvars]
    by_cases hba : b = a
    · subst hba
      rw [hvalue, Function.update_self]
    · rw [Function.update_of_ne fun e => hba (Setting.entry_injective e)]
      simp only [Device.store, Function.update_of_ne fun e => hba (Setting.var_injective e)]
      exact hs.equal b hb

theorem loads_bind {cs : List Setting} {f : Unit → Code Unit} (hp : Loads as bs p) (hf : Loads bs cs (f ())) :
    Loads as cs (p >>= f) := fun s hs => by
  rw [atomically_bind]
  exact hf _ (hp s hs)

theorem loads_when {c : Prop} [Decidable c] (h : Loads as as p) : Loads as as (when c p) := by
  unfold when
  split
  · exact h
  · exact fun _ hs => hs

theorem loads_gotValue : Loads [] [.settingLanguage, .settingBackwashtime, .settingHardness, .settingDeltapress,
    .deltapressEnable, .enable .automatic, .day .automatic, .week .automatic, .enable .reminder, .day .reminder,
    .week .reminder] gotValue := by
  refine loads_setting (.week .reminder) (loads_setting (.day .reminder) (loads_setting (.enable .reminder) ?_))
  refine loads_setting (.week .automatic) (loads_setting (.day .automatic) (loads_setting (.enable .automatic) ?_))
  refine loads_setting .deltapressEnable (loads_counter .manual 8 (loads_counter .automatic 9 ?_))
  refine loads_counter .deltapress 10 (loads_counter .error 11 (loads_setting .settingDeltapress ?_))
  refine loads_setting .settingHardness fun s hs => ?_
  refine loads_bind (loads_when (loads_default (a := .settingHardness) (by decide))) ?_ s hs
  refine loads_setting .settingBackwashtime fun s hs => ?_
  refine loads_bind (loads_when (loads_default (a := .settingBackwashtime) (by decide))) ?_ s hs
  exact loads_setting (p := pure ()) .settingLanguage fun _ hs => hs

end

/-- What the firmware starts with agrees with the store. -/
theorem boot_equal {flash : Nat → Nat} (h : ∀ a : Setting, flash a.entry < 2 ^ a.var.width) (a : Setting) :
    (boot flash).vars a.var = (boot flash).flash a.entry := by
  have hstart : Loaded [] (atomically .lcd rtcInit (powerOn flash)) := ⟨h, fun _ hb => nomatch hb⟩
  refine (loads_gotValue _ hstart).equal a ?_
  cases a with
  | week k => cases k <;> simp
  | day k => cases k <;> simp
  | enable k => cases k <;> simp
  | _ => simp

/-- Valid schedules are stored. -/
def StoredValid (flash : Nat → Nat) : Prop :=
  ∀ k : Schedule, ValidSchedule (flash k.weekId) (flash k.dayId) (flash k.enableId)

/-- The stored values fit the variables they are loaded to. -/
def StoredFits (flash : Nat → Nat) : Prop := ∀ a : Setting, flash a.entry < 2 ^ a.var.width

theorem boot_sound {flash : Nat → Nat} (h : StoredValid flash) (k : Schedule) : Sound (boot flash).vars k := by
  have hload := loaded_eq flash k
  have hk := h k
  have hw := hk.week
  have hd := hk.day
  have he := hk.enable
  simp only [loaded, Triple.mk.injEq] at hload
  have hcopy : ∀ u, u ∈ copies k → (boot flash).vars u = 0 := by
    intro u hu
    simp only [copies, List.mem_cons, List.not_mem_nil, or_false] at hu
    rcases hu with rfl | rfl | rfl <;> exact boot_vars (fun _ => rfl) (fun _ => by simp) (by simp) flash
  refine ⟨?_, ?_, ?_, ?_⟩
  · rw [hload.1, hload.2.1, hload.2.2, Nat.mod_eq_of_lt (by omega), Nat.mod_eq_of_lt (by omega),
      Nat.mod_eq_of_lt (by omega)]
    exact hk
  · simp [hcopy (.weekTemp k) (by simp [copies])]
  · simp [hcopy (.dayTemp k) (by simp [copies])]
  · simp [hcopy (.enableTemp k) (by simp [copies])]

/-- Every run is seen from the desk. -/
theorem desk_seen (depth : Nat) (flash : Nat → Nat) (as : List Act) :
    ∃ x : Desk, x.fault = false ∧
      x.Sees ((board loopCalls depth).run (start flash) as).state ((board loopCalls depth).run (start flash) as).trace ∧
      (((board loopCalls depth).run (start flash) as).task .lcd = none → x.Tidy (StoredValid flash) (StoredFits flash)) := by
  refine Owner.run_sees (N := desk (StoredValid flash) (StoredFits flash) depth)
    (y := ⟨(boot flash).vars, (boot flash).flash, none, false, false, false, false⟩) ?_ ?_ rfl ?_ (System.admits_true _ as)
  · intro c s x hready hrest hsafe
    have hr : (Thread.lcd = c.thread ∧ loopCalls c = true) ∧ c.enabled s = true := by simpa [board, desk] using hready
    have hclean : Clean (StoredValid flash) (StoredFits flash) x := ⟨hrest, hsafe⟩
    obtain ⟨⟨ht, hc⟩, -⟩ := hr
    cases c with
    | lcdTask => exact (run_lcdTaskEntry hclean).mono fun _ _ hy => hy.tidy
    | motoCycle caller => exact (run_motoCycle caller hclean).mono fun _ _ hy => hy.tidy
    | scheduleSave k => cases hc
    | _ => cases ht
  · exact ⟨boot_sound, fun hfits _ => boot_equal hfits⟩
  · exact ⟨fun u _ => ⟨rfl, boot_bounded flash u⟩, fun _ => rfl, rfl, fun e => absurd e Bool.false_ne_true, rfl, rfl,
      fun _ => trivial⟩

/-! ### The schedules -/

/-- Both schedules are valid in RAM. -/
def SchedulesValid (s : Device) : Prop := ∀ k, ValidSchedule (s.vars (.week k)) (s.vars (.day k)) (s.vars (.enable k))

/-- The schedules in RAM are valid whenever the display thread is between two passes. -/
theorem schedules_valid (depth : Nat) (flash : Nat → Nat) (h : StoredValid flash) (as : List Act)
    (hidle : ((board loopCalls depth).run (start flash) as).task .lcd = none) :
    SchedulesValid ((board loopCalls depth).run (start flash) as).state := by
  obtain ⟨x, -, hsees, hrest⟩ := desk_seen depth flash as
  intro k
  rw [(hsees.vars (.week k) rfl).1, (hsees.vars (.day k) rfl).1, (hsees.vars (.enable k) rfl).1]
  exact ((hrest hidle).valid h k).schedule

/-- The reminder editor is opened, the weeks are set to none, and it is saved. -/
def reminderSaved : List Act :=
  lcdPass ++ press .k1 ++ lcdPass ++ press .k2 ++ lcdPass ++ lcdPass ++ press .k0 ++ lcdPass ++ press .k2 ++ lcdPass ++
    press .k2 ++ lcdPass ++ press .k2 ++ lcdPass ++ lcdPass

theorem schedules_valid_reminderSaved :
    StoredValid (fun _ => 1) ∧
    ((board loopCalls 2).run (start fun _ => 1) reminderSaved).task .lcd = none ∧
    SchedulesValid ((board loopCalls 2).run (start fun _ => 1) reminderSaved).state := by
  have hstored : StoredValid fun _ => 1 := fun _ => ⟨by simp, by simp, by simp, by simp⟩
  have hidle : ((board loopCalls 2).run (start fun _ => 1) reminderSaved).task .lcd = none :=
    Option.isNone_iff_eq_none.mp (by decide +kernel)
  exact ⟨hstored, hidle, schedules_valid 2 (fun _ => 1) hstored reminderSaved hidle⟩

end Backwash.Settings
