import Backwash.Lcd.Menu
import Backwash.Settings.Visits

/-! The numbers over the life of the controller.

`GotValue` loads hardness limit and backwash time from the store and replaces what it takes
for out of range. What the editors save is loaded at the next start, so what a number can be
is a matter of all the lives of the controller up to now. -/
namespace Backwash.Settings
open Concurrent Prog Firmware Motor Lcd

/-! ### The start -/

theorem boot_numbers (flash : Nat → Nat) :
    (boot flash).vars .settingHardness = (if flash 13 % 2 ^ 32 = 0 then 100 else flash 13 % 2 ^ 32) ∧
    (boot flash).flash 13 = (if flash 13 % 2 ^ 32 = 0 then 100 else flash 13) ∧
    (boot flash).vars .settingBackwashtime =
      (if flash 14 % 2 ^ 16 = 0 ∨ 120 < flash 14 % 2 ^ 16 then 30 else flash 14 % 2 ^ 16) ∧
    (boot flash).flash 14 = (if flash 14 % 2 ^ 16 = 0 ∨ 120 < flash 14 % 2 ^ 16 then 30 else flash 14) := by
  simp only [Nat.reducePow]
  by_cases hh : flash 13 % 4294967296 = 0 <;> by_cases hb : flash 14 % 65536 = 0 ∨ 120 < flash 14 % 65536 <;>
    simp [boot, gotValue, rtcInit, flashGet, flashSet, perform, atomically, exec, powerOn, Device.store, Var.width,
      Prog.when, hh, hb]

theorem boot_firstFlag (flash : Nat → Nat) (w : Win) : (boot flash).vars (.firstFlag w) = 0 := by
  refine boot_keep (f := fun s => s.vars (.firstFlag w)) (fun o s ho => ?_) flash
  cases o with
  | store v n =>
    have hv : Var.firstFlag w ≠ v := fun e => by subst e; cases ho
    simp [exec, Device.store, hv]
  | _ => first | rfl | cases ho

/-- What the display thread knows of a number before anything has happened. -/
def Dial.fresh (N : Number) (s : Device) : Dial :=
  ⟨s.vars N.setting, s.vars N.temp, s.flash N.entry, s.text N.text, false, 0, none, none, false⟩

theorem Dial.fresh_sees {N : Number} {s : Device} (hs : Bounded s) (hflag : s.vars (.firstFlag N.win) = 0) :
    Dial.Sees N (Dial.fresh N s) s [] := by
  have htemp : N.temp.width = 16 := by cases N <;> rfl
  exact ⟨rfl, hs N.setting, rfl, htemp ▸ hs N.temp, rfl, rfl, fun e => absurd hflag e, rfl, rfl, rfl, fun _ => trivial⟩

theorem Dial.fresh_sound {N : Number} {I : Range} {s : Device} (hvalue : I.value (s.vars N.setting))
    (hentry : I.entry (s.flash N.entry)) : Dial.Sound N I (Dial.fresh N s) :=
  ⟨⟨hvalue, hentry, rfl⟩, fun e => absurd e Bool.false_ne_true⟩

/-! ### One life after the other -/

section
variable (M : System Res Thread Call Device Input) (Rule : Conf → Act → Prop)

/-- What is stored after some lives: each begins with what the one before has left. -/
def afterLives (flash : Nat → Nat) : List (List Act) → Nat → Nat
  | [] => flash
  | as :: rest => afterLives (M.run (start flash) as).state.flash rest

/-- Every action of every life satisfies the rule. -/
def LivesAdmit (flash : Nat → Nat) : List (List Act) → Prop
  | [] => True
  | as :: rest => M.Admits Rule (start flash) as ∧ LivesAdmit (M.run (start flash) as).state.flash rest

instance decidableLivesAdmit [∀ cfg a, Decidable (Rule cfg a)] : ∀ flash lives, Decidable (LivesAdmit M Rule flash lives)
  | _, [] => isTrue trivial
  | flash, as :: rest =>
    @instDecidableAnd _ _ (System.decidableAdmits M (start flash) as)
      (decidableLivesAdmit (M.run (start flash) as).state.flash rest)

variable {M Rule}

/-- What every life leaves true of the store is true of it after any number of lives. -/
theorem afterLives_invariant {Q : (Nat → Nat) → Prop}
    (hlife : ∀ flash as, Q flash → M.Admits Rule (start flash) as → Q (M.run (start flash) as).state.flash)
    {lives : List (List Act)} {flash : Nat → Nat} (h : Q flash) (hl : LivesAdmit M Rule flash lives) :
    Q (afterLives M flash lives) := by
  induction lives generalizing flash with
  | nil => exact h
  | cons as rest ih => exact ih (hlife flash as h hl.1) hl.2

theorem livesAdmit_of_forall (h : ∀ cfg a, Rule cfg a) (flash : Nat → Nat) (lives : List (List Act)) :
    LivesAdmit M Rule flash lives := by
  induction lives generalizing flash with
  | nil => trivial
  | cons as rest ih => exact ⟨System.admits_of_forall h _ as, ih _⟩

end

section
variable {N : Number} {I : Range} {A : Op → Nat → Prop} {allowed : Call → Bool} {depth : Nat}

/-- A life that starts in range stays in range, and so does the store. -/
theorem life_safe (hK : Kept N I A) {flash : Nat → Nat} (hvalue : I.value ((boot flash).vars N.setting))
    (hentry : I.entry ((boot flash).flash N.entry)) {as : List Act}
    (ha : (board allowed depth).Admits (CopyRule N A) (start flash) as) :
    I.value (((board allowed depth).run (start flash) as).state.vars N.setting) ∧
      I.entry (((board allowed depth).run (start flash) as).state.flash N.entry) := by
  have hsound : Dial.Sound N I (Dial.fresh N (boot flash)) := Dial.fresh_sound hvalue hentry
  have hsees : Dial.Sees N (Dial.fresh N (boot flash)) (boot flash) [] :=
    Dial.fresh_sees (boot_bounded flash) (boot_firstFlag flash _)
  obtain ⟨y, hsafe, hy, -⟩ := dial_seen hK hsound hsees ha
  exact ⟨by simpa only [start, hy.setting] using hsafe.setting, by simpa only [start, hy.entry] using hsafe.entry⟩

/-- If the start brings every stored value in range, the number is in range in every life. -/
theorem lives_safe (hK : Kept N I A) (hboot : ∀ flash, I.entry (flash N.entry) →
      I.value ((boot flash).vars N.setting) ∧ I.entry ((boot flash).flash N.entry))
    {flash : Nat → Nat} (h : I.entry (flash N.entry)) {lives : List (List Act)}
    (hl : LivesAdmit (board allowed depth) (CopyRule N A) flash lives) {as : List Act}
    (ha : (board allowed depth).Admits (CopyRule N A) (start (afterLives (board allowed depth) flash lives)) as) :
    I.value (((board allowed depth).run (start (afterLives (board allowed depth) flash lives)) as).state.vars N.setting) := by
  have hstored : I.entry (afterLives (board allowed depth) flash lives N.entry) :=
    afterLives_invariant (Q := fun f => I.entry (f N.entry))
      (fun f bs hf hb => (life_safe hK (hboot f hf).1 (hboot f hf).2 hb).2) h hl
  exact (life_safe hK (hboot _ hstored).1 (hboot _ hstored).2 ha).1

end

/-! ### The hardness limit -/

def HardnessInRange (s : Device) : Prop := 1 ≤ s.vars .settingHardness ∧ s.vars .settingHardness ≤ 10000

instance (s : Device) : Decidable (HardnessInRange s) := inferInstanceAs (Decidable (_ ∧ _))

/-- K1 counts the copy of the hardness limit up from 9990 at most. -/
def CountsUpInRange (cfg : Conf) : Act → Prop
  | .step t _ => t = .lcd → ∀ o ∈ cfg.head t, o = .store .setHardnessTemp (cfg.state.vars .setHardnessTemp + 10) →
      cfg.state.vars .setHardnessTemp ≤ 9990
  | .start _ _ => True

instance (cfg : Conf) : ∀ a, Decidable (CountsUpInRange cfg a)
  | .step t _ =>
    @instDecidableForall (t = .lcd) _ (instDecidableEqThread t .lcd)
      (@Option.decidableForallMem _ _ (fun o => @instDecidableForall _ _ (instDecidableEqOp o _) (Nat.decLe _ _)) (cfg.head t))
  | .start _ _ => isTrue trivial

def hardnessRange : Range where
  value := fun n => 1 ≤ n ∧ n ≤ 10000
  entry := fun n => n % 2 ^ 32 ≤ 10000
  saved := fun _ h => Nat.le_trans (Nat.mod_le _ _) h.2
  cleared := by decide

theorem hardness_kept :
    Kept .hardness hardnessRange fun o n => o = .store .setHardnessTemp (n + 10) → n ≤ 9990 := by
  refine ⟨fun n _ => (by decide : 1 ≤ 100 % 2 ^ 16 ∧ 100 % 2 ^ 16 ≤ 10000), fun n h => ?_, fun n h hA => ?_⟩
  · have hn : 1 ≤ n ∧ n ≤ 10000 := h
    show 1 ≤ Number.down .hardness n % 2 ^ 16 ∧ Number.down .hardness n % 2 ^ 16 ≤ 10000
    rw [Number.down]
    split <;> omega
  · have hn : 1 ≤ n ∧ n ≤ 10000 := h
    have hup : n ≤ 9990 := hA rfl
    show 1 ≤ (n + 10) % 2 ^ 16 ∧ (n + 10) % 2 ^ 16 ≤ 10000
    omega

theorem boot_hardness (flash : Nat → Nat) : HardnessInRange (boot flash) ↔ flash 13 % 2 ^ 32 ≤ 10000 := by
  rw [HardnessInRange, (boot_numbers flash).1]
  split <;> omega

/-- The hardness limit is in range after every start that finds one in range in the store,
and stays there as long as it is counted up in range. -/
theorem hardness_in_range (allowed : Call → Bool) (depth : Nat) (flash : Nat → Nat) (lives : List (List Act))
    (as : List Act) :
    (HardnessInRange (boot flash) ↔ flash 13 % 2 ^ 32 ≤ 10000) ∧
    (flash 13 % 2 ^ 32 ≤ 10000 → LivesAdmit (board allowed depth) CountsUpInRange flash lives →
      (board allowed depth).Admits CountsUpInRange (start (afterLives (board allowed depth) flash lives)) as →
      HardnessInRange ((board allowed depth).run (start (afterLives (board allowed depth) flash lives)) as).state) := by
  refine ⟨boot_hardness flash, fun h hl ha => ?_⟩
  refine lives_safe (N := .hardness) (I := hardnessRange) hardness_kept (fun f hf => ?_) h hl ha
  have hf' : f 13 % 2 ^ 32 ≤ 10000 := hf
  refine ⟨(boot_hardness f).mpr hf', ?_⟩
  show (boot f).flash 13 % 2 ^ 32 ≤ 10000
  rw [(boot_numbers f).2.1]
  split <;> omega

/-- From the main window a long press of K2 opens the settings, whose second entry is the
hardness limit. -/
def toHardness : List Act :=
  lcdPass ++ holdK2 ++ lcdPass ++ lcdPass ++ press .k1 ++ lcdPass ++ press .k2 ++ lcdPass ++ lcdPass

/-- The copy is counted up once and saved. -/
def hardnessSaved : List Act := toHardness ++ press .k1 ++ lcdPass ++ press .k2 ++ lcdPass ++ press .k2 ++ lcdPass

theorem hardness_in_range_saved :
    LivesAdmit (board passCalls 2) CountsUpInRange (fun _ => 0) [hardnessSaved] ∧
    HardnessInRange
      ((board passCalls 2).run (start (afterLives (board passCalls 2) (fun _ => 0) [hardnessSaved])) lcdPass).state := by
  have hlives : LivesAdmit (board passCalls 2) CountsUpInRange (fun _ => 0) [hardnessSaved] := by decide +kernel
  exact ⟨hlives, (hardness_in_range passCalls 2 (fun _ => 0) [hardnessSaved] lcdPass).2 (by decide) hlives (by decide +kernel)⟩

/-- 20000 is stored. -/
theorem hardness_out_of_range : ¬ HardnessInRange (boot fun id => if id = 13 then 20000 else 0) := by decide +kernel

/-! ### What is saved and what is shown -/

/-- What the last operation has saved, in RAM or, from the window of the number, in its entry. -/
def savedNow (N : Number) (s : Device) : Trace → Option Nat
  | .did _ (.store v _) _ :: _ => if v = N.setting then some (s.vars N.setting) else none
  | .did _ (.efSet id _) _ :: tr => if id = N.entry ∧ openWindow tr = some N.win then some (s.flash N.entry) else none
  | _ => none

/-- What has been saved is the number formatted last. -/
def SavedIsShown (N : Number) (cfg : Conf) : Prop :=
  ∀ n ∈ savedNow N cfg.state cfg.trace, cfg.state.text N.text = some n

instance (N : Number) (tr : Trace) : Decidable (Shows N tr) := inferInstanceAs (Decidable (_ ∨ _ ∨ _))

instance (N : Number) (cfg : Conf) : Decidable (SavedIsShown N cfg) := by unfold SavedIsShown; infer_instance

theorem SavesShown.saved {N : Number} {s : Device} {tr : Trace} (h : SavesShown N s tr) :
    ∀ n ∈ savedNow N s tr, (s.text N.text = some n ↔ Shows N tr.tail) := by
  intro n hn
  cases tr with
  | nil => cases hn
  | cons e tr => cases e with
    | began t c => cases hn
    | did t o i => cases o with
      | store v m =>
        obtain ⟨hv, rfl⟩ : v = N.setting ∧ s.vars N.setting = n := by simpa [savedNow] using hn
        exact h hv
      | efSet id m =>
        obtain ⟨⟨hid, hwin⟩, rfl⟩ : (id = N.entry ∧ openWindow tr = some N.win) ∧ s.flash N.entry = n := by
          simpa [savedNow] using hn
        exact h hid hwin
      | _ => cases hn

def anyRange : Range where
  value := fun _ => True
  entry := fun _ => True
  saved := fun _ _ => trivial
  cleared := trivial

/-- What is saved is what is shown if and only if the number is the backwash time, or was
formatted again since the window was drawn, or was 100 then: the copy of the hardness limit
starts at 100. -/
theorem saved_is_shown_iff (N : Number) (allowed : Call → Bool) (depth : Nat) {s : Device} (hs : Bounded s)
    (hflag : s.vars (.firstFlag N.win) = 0) (as : List Act) :
    SavedIsShown N ((board allowed depth).run (.boot s) as) ↔
      ((savedNow N ((board allowed depth).run (.boot s) as).state ((board allowed depth).run (.boot s) as).trace).isSome →
        Shows N ((board allowed depth).run (.boot s) as).trace.tail) := by
  have hkept : Kept N anyRange fun _ _ => True := ⟨fun _ _ => trivial, fun _ _ => trivial, fun _ _ _ => trivial⟩
  have hadmits : (board allowed depth).Admits (CopyRule N fun _ _ => True) (.boot s) as :=
    System.admits_of_forall (fun cfg a => by cases a <;> simp [CopyRule]) _ as
  obtain ⟨y, hsafe, hsees, -⟩ :=
    dial_seen hkept (Dial.fresh_sound (I := anyRange) trivial trivial) (Dial.fresh_sees hs hflag) hadmits
  have hsaved := (hsees.shown hsafe.clear).saved
  constructor
  · intro h hsome
    obtain ⟨n, hn⟩ := Option.isSome_iff_exists.mp hsome
    exact (hsaved n hn).mp (h n hn)
  · intro h n hn
    exact (hsaved n hn).mpr (h (Option.isSome_of_mem hn))

/-- A hardness limit of 500 is stored and shown, and the thread has just saved in the entry. -/
def savedAfter (keys : List Act) : Conf :=
  (board passCalls 2).run (.boot (boot fun id => if id = 13 then 500 else 0))
    (toHardness ++ keys ++ press .k2 ++ lcdPass ++ press .k2 ++ alone .lcdTask {} 13)

theorem saved_is_shown_dialled :
    (savedNow .hardness (savedAfter (press .k1 ++ lcdPass)).state (savedAfter (press .k1 ++ lcdPass)).trace).isSome ∧
    SavedIsShown .hardness (savedAfter (press .k1 ++ lcdPass)) :=
  ⟨by decide +kernel, (saved_is_shown_iff .hardness passCalls 2 (boot_bounded fun id => if id = 13 then 500 else 0)
    (boot_firstFlag _ _) _).mpr fun _ => by decide +kernel⟩

/-- Saved without a change, the limit of 500 becomes 100. -/
theorem saved_is_not_shown : ¬ SavedIsShown .hardness (savedAfter []) := by decide +kernel

end Backwash.Settings
