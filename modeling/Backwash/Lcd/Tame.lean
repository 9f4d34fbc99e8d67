import Backwash.Concurrent.Rely
import Backwash.Lcd.Selection

/-! The index into the button array.

`tButton` has five entries, and the windows find the selected one by `NowButtonId`. The
index stays within the array as long as no window that is drawn already gets the entry of
another: the settings menu, and window 20 under it, from the main menu that opened it and
goes on with its keys; window 7 or 14 from the main menu when its flag is a left-over. -/
namespace Backwash.Lcd.Index
open Concurrent Prog Firmware Reach Selection

/-! ### The property -/

/-- The button that an operation accesses. -/
def accesses : Op → Option Nat
  | .setButton i _ | .guiButton i => some i
  | _ => none

/-- The display thread accesses one of the five buttons next, if any. -/
def InArray (cfg : Conf) : Prop := ∀ o i, cfg.head .lcd = some o → accesses o = some i → i ≤ 4

/-- Window `w` is on top and drawn. -/
def lit (s : Device) (w : Win) : Bool := s.wins.head? == some w && s.vars (.firstFlag w) != 0

/-- No entry over 3 is stored while the settings menu or window 20 is on top and drawn, and
neither window 7 nor the settings menu is opened drawn with one. -/
def indexMay (s : Device) : Op → Bool
  | .store v n => match v with
    | .nowButtonId => decide (n % 2 ^ 8 ≤ 3) || !(lit s .w14 || lit s .w20)
    | _ => true
  | .guiWinAdd w => match w with
    | .w7 | .w14 => s.vars (.firstFlag w) == 0 || decide (s.vars .nowButtonId ≤ 3)
    | _ => true
  | _ => true

def IndexRule (cfg : Conf) : Act → Prop
  | .step t _ => t = .lcd → (cfg.head t).all (indexMay cfg.state) = true
  | .start _ _ => True

instance (cfg : Conf) : ∀ a, Decidable (IndexRule cfg a)
  | .step _ _ => inferInstanceAs (Decidable (_ → _))
  | .start _ _ => inferInstanceAs (Decidable True)

/-! ### The view -/

def inArray : Op → Bool
  | .setButton i _ | .guiButton i => decide (i ≤ 4)
  | _ => true

/-- What the rule says of the view. -/
def allowed : Op → Screen → Prop
  | .store v n, x => match v with
    | .nowButtonId => 3 < n % 2 ^ 8 → ∀ w, w = .w14 ∨ w = .w20 → x.wins.head? = some w → x.flag w = 0
    | _ => True
  | .guiWinAdd w, x => w = .w7 ∨ w = .w14 → x.flag w ≠ 0 → x.now ≤ 3
  | _, _ => True

def index : Rely Res Screen where
  drift := Drift
  drift_refl := Drift.refl
  drift_trans := Drift.trans
  allowed := allowed
  fine := fun o => inArray o = true
  can := Screen.can
  after := Screen.after

theorem allowed_of_rule {cfg : Conf} {o : Op} {i : Input} (hhead : cfg.head .lcd = some o)
    (hr : IndexRule cfg (.step .lcd i)) : allowed o (screen cfg.state) := by
  have hmay : indexMay cfg.state o = true := by simpa [hhead] using hr rfl
  cases o with
  | store v n =>
    cases v with
    | nowButtonId =>
      intro hn w hw htop
      have hnot : decide (n % 2 ^ 8 ≤ 3) = false := decide_eq_false (Nat.not_le.mpr hn)
      have hlit : (lit cfg.state .w14 || lit cfg.state .w20) = false := by
        rw [indexMay, hnot, Bool.false_or] at hmay
        simpa using hmay
      obtain ⟨h14, h20⟩ := Bool.or_eq_false_iff.mp hlit
      have htop' : cfg.state.wins.head? = some w := htop
      show cfg.state.vars (.firstFlag w) = 0
      rcases hw with rfl | rfl
      · simpa [lit, htop'] using h14
      · simpa [lit, htop'] using h20
    | _ => trivial
  | guiWinAdd w =>
    intro hw hf
    have hflag : cfg.state.vars (.firstFlag w) ≠ 0 := hf
    show cfg.state.vars .nowButtonId ≤ 3
    rcases hw with rfl | rfl <;> simpa [indexMay, hflag] using hmay
  | _ => trivial

/-! ### Single operations -/

/-- The operation does no more to the view than `JumptoMainWin` could, or clears a flag. -/
def drifts : Op → Bool
  | .store v n => match v with
    | .firstFlag _ => n == 0
    | .win1PageID | .nowButtonId => false
    | _ => true
  | .guiWinAdd w => w == .w1
  | .guiWinDeleteTop => false
  | _ => true

theorem flag_cleared (w : Win) (r : Unit) (x : Screen) : (x.after (.store (.firstFlag w) 0) r).flag w = 0 :=
  Function.update_self ..

theorem drift_after {o : Op} (h : drifts o = true) (r : Res o) (x : Screen) : Drift x (x.after o r) := by
  cases o with
  | store v n =>
    cases v with
    | firstFlag w =>
      obtain rfl : n = 0 := by simpa [drifts] using h
      refine ⟨⟨0, .inl rfl⟩, fun u => ?_, rfl, rfl⟩
      by_cases hu : u = w
      · subst hu
        exact .inr (flag_cleared u r x)
      · exact .inl (Function.update_of_ne hu ..)
    | win1PageID => cases h
    | nowButtonId => cases h
    | _ => exact Drift.of_eq rfl rfl rfl rfl
  | semTake k => cases k <;> exact Drift.of_eq rfl rfl rfl rfl
  | guiWinInit => exact ⟨⟨0, .inr rfl⟩, fun _ => .inl rfl, rfl, rfl⟩
  | guiWinAdd w =>
    obtain rfl : w = .w1 := by simpa [drifts] using h
    refine ⟨?_, fun _ => .inl rfl, rfl, rfl⟩
    by_cases hfull : x.wins.length ≥ guiWinManageNum
    · exact ⟨0, .inl (if_pos hfull)⟩
    · exact ⟨1, .inl (if_neg hfull)⟩
  | guiWinDeleteTop => cases h
  | memsetFirstFlag =>
    refine ⟨⟨0, .inl rfl⟩, fun w => ?_, rfl, rfl⟩
    by_cases hw : w = .w27
    · subst hw
      exact .inl rfl
    · exact .inr (if_neg hw)
  | _ => exact Drift.of_eq rfl rfl rfl rfl

/-- The other threads do nothing else to the view. -/
theorem drifts_other {t : Thread} {o : Op} (ht : t ≠ .lcd) (hmay : may t o = true) : drifts o = true := by
  cases o with
  | store v n => cases v <;> first | rfl | (cases t <;> first | exact absurd rfl ht | cases hmay)
  | guiWinAdd w => cases t <;> first | exact absurd rfl ht | exact hmay | cases hmay
  | guiWinDeleteTop => cases t <;> first | exact absurd rfl ht | cases hmay
  | _ => rfl

/-- It does no more, and finds its button. -/
def quiet (o : Op) : Bool := inArray o && drifts o

/-- What keeps everything in order by itself. -/
def easy (o : Op) : Bool :=
  inArray o && (drifts o || match o with
    | .store v n => match v with
      | .nowButtonId => decide (n ≤ 2)
      | .firstFlag w => limit w == 5 && w != .w1
      | _ => false
    | .guiWinAdd w => tier w == 6
    | _ => false)

theorem easy_of_quiet {o : Op} (h : quiet o = true) : easy o = true := by
  obtain ⟨hin, hd⟩ := Bool.and_eq_true_iff.mp h
  simp [easy, hin, hd]

section
variable {n : Nat} {w : Win} {x : Screen}

/-- An entry up to 2 suits every window. -/
theorem held_entry (h : Held n x) {m : Nat} (hm : m ≤ 2) (r : Unit) : Held n (x.after (.store .nowButtonId m) r) := by
  have hnow : (x.after (.store .nowButtonId m) r).now = m := Nat.mod_eq_of_lt (by omega)
  refine ⟨h.deep.same rfl fun s hs => ⟨hs.1, fun u _ _ => ?_⟩, .inl (by rw [hnow]; omega)⟩
  rw [hnow]
  exact Nat.le_trans hm (two_le_limit u)

/-- The flag of a window that does not index the buttons. -/
theorem held_flag (h : Held n x) (hw : limit w = 5) (hmain : w ≠ .w1) (m : Nat) (r : Unit) :
    Held n (x.after (.store (.firstFlag w) m) r) := by
  have hother : ∀ u, u ≠ w → (x.after (.store (.firstFlag w) m) r).flag u = x.flag u := fun u hu =>
    Function.update_of_ne hu ..
  refine ⟨h.deep.same rfl fun s hs => ⟨hs.1.congr fun u hu => ?_, fun u hu hf => ?_⟩, ?_⟩
  · by_cases huw : u = w
    · exact .inr (.inl (huw ▸ hw))
    · exact .inl (by rwa [hother u huw] at hu)
  · by_cases huw : u = w
    · rw [huw, hw]
      exact h.sane.now_le
    · exact hs.2 u hu (by rwa [hother u huw] at hf)
  · unfold Sane
    rw [hother .w1 (Ne.symm hmain)]
    exact h.sane

/-- An alert may lie over anything. -/
theorem held_alert (h : Held n x) (hw : tier w = 6) (r : Unit) : Held n (x.after (.guiWinAdd w) r) := by
  have hmain : w ≠ .w1 := fun e => by rw [e] at hw; cases hw
  have h5 : limit w = 5 := by cases w <;> first | rfl | cases hw
  have h2 : leaves w = 2 := by cases w <;> first | rfl | cases hw
  refine ⟨h.deep.push hmain (fun e => by rw [e] at hw; cases hw) (fun i _ hs => ⟨?_, fun u hu hf => ?_⟩) rfl rfl, h.sane⟩
  · refine hs.1.cons (by omega) (fun l _ => .inr hw) fun l _ _ => ?_
    rw [h2]
    exact two_le_limit l
  · rcases List.mem_cons.mp hu with rfl | hu
    · rw [h5]
      exact h.sane.now_le
    · exact hs.2 u hu hf

theorem held_easy {o : Op} (ho : easy o = true) (h : Held n x) (r : Res o) : Held n (x.after o r) := by
  obtain ⟨-, ho⟩ := Bool.and_eq_true_iff.mp ho
  by_cases hd : drifts o = true
  · exact h.drift (drift_after hd r x)
  simp only [hd, Bool.false_or] at ho
  cases o with
  | store v m =>
    cases v with
    | nowButtonId => exact held_entry h (by simpa using ho) r
    | firstFlag w =>
      have hw : limit w = 5 ∧ w ≠ .w1 := by simpa using ho
      exact held_flag h hw.1 hw.2 m r
    | _ => cases ho
  | guiWinAdd w => exact held_alert h (by simpa using ho) r
  | _ => cases ho

theorem held_pop (h : Held (n + 1) x) (r : Unit) : Held n (x.after .guiWinDeleteTop r) := ⟨h.deep.pop rfl rfl, h.sane⟩

end

/-! ### Windows that do not index the buttons

They keep everything in order at every step, and pop their window at most once. -/

/-- From order with `n` pops to spare to order with `m`. -/
def Tame (n m : Nat) {α : Type} (p : Code α) : Prop := ∀ x, Held n x → index.Run p x fun _ y => Held m y

theorem held_stable (n : Nat) : index.Stable (Held n) := fun _ _ hxy hx => hx.drift hxy

section
variable {n m k : Nat} {α β : Type}

theorem Tame.bind {p : Code α} {f : α → Code β} (hp : Tame n m p) (hf : ∀ a, Tame m k (f a)) : Tame n k (p >>= f) :=
  fun x hx => (hp x hx).bind fun a y hy => hf a y hy

theorem Tame.pure (a : α) (h : m ≤ n) : Tame n m (Pure.pure a) := fun _ hx => hx.mono h

theorem Tame.mono {p : Code α} (hp : Tame n m p) (h : k ≤ m) : Tame n k p :=
  fun x hx => (hp x hx).mono fun _ _ hy => hy.mono h

theorem Tame.ite {c : Prop} [Decidable c] {p q : Code α} (hp : Tame n m p) (hq : Tame n m q) :
    Tame n m (if c then p else q) :=
  fun x hx => Rely.Run.ite (fun _ => hp x hx) fun _ => hq x hx

theorem Tame.when {c : Prop} [Decidable c] {p : Code Unit} (hp : Tame n m p) (h : m ≤ n) : Tame n m (Prog.when c p) :=
  Tame.ite hp (Tame.pure () h)

theorem Tame.compositional (n : Nat) : Compositional fun (p : Code _) => Tame n n p :=
  ⟨fun a => Tame.pure a (Nat.le_refl n), Tame.bind⟩

theorem Tame.op {o : Op} (ho : easy o = true) : Tame n n (perform o) := fun _ hx =>
  Rely.Run.perform (held_stable n) hx (Bool.and_eq_true_iff.mp ho).1 fun _ r hy _ _ => held_easy ho hy r

theorem Tame.all {p : Code α} (hp : p.All fun o => easy o = true) : Tame n n p := fun _ hx =>
  Rely.Run.all (held_stable n)
    (hp.mono fun _ ho => ⟨(Bool.and_eq_true_iff.mp ho).1, fun _ r hy _ _ => held_easy ho hy r⟩) hx

theorem Tame.pop : Tame (n + 1) n guiWinDeleteTop := fun _ hx =>
  Rely.Run.perform (held_stable _) hx rfl fun _ r hy _ _ => held_pop hy r

/-- One operation, and the rest of the program. -/
theorem Tame.step {o : Op} {f : Res o → Code α} (ho : easy o = true) (hf : ∀ r, Tame n m (f r)) :
    Tame n m (perform o >>= f) :=
  (Tame.op ho).bind hf

/-- A stretch of operations, and the rest of the program. -/
theorem Tame.skip {p : Code β} {f : β → Code α} (hp : p.All fun o => easy o = true) (hf : ∀ a, Tame n m (f a)) :
    Tame n m (p >>= f) :=
  (Tame.all hp).bind hf

theorem Tame.window {w : Win} {draw keys : Code Unit} (hdraw : draw.All fun o => easy o = true) (hkeys : Tame n 0 keys) :
    Tame n 0 (window w draw keys) :=
  (Tame.op (o := .load (.firstFlag w)) rfl).bind fun (_ : Nat) => Tame.ite ((Tame.all hdraw).mono (Nat.zero_le n)) hkeys

theorem quiet_takeKeys : takeKeys.All fun o => quiet o = true :=
  built_takeKeys (All.compositional _) fun _ => All.perform rfl

theorem quiet_drawButton {i : Nat} (hi : i ≤ 4) (n : Nat) : (drawButton i n).All fun o => quiet o = true :=
  All.bind (All.perform (by simp [quiet, inArray, drifts, hi])) fun _ =>
    All.perform (by simp [quiet, inArray, drifts, hi])

/-- There are five buttons to draw. -/
theorem quiet_drawButtons {flags : List Nat} (h : flags.length ≤ 5) : (drawButtons flags).All fun o => quiet o = true := by
  have hall : ∀ (flags : List Nat) (k : Nat), k + flags.length ≤ 5 →
      ((flags.zipIdx k).foldr (fun x rest => do drawButton x.2 x.1; rest) (pure () : Code Unit)).All
        fun o => quiet o = true := by
    intro flags
    induction flags with
    | nil => exact fun _ _ => All.pure ()
    | cons flag flags ih =>
      intro k hk
      rw [List.length_cons] at hk
      exact All.bind (quiet_drawButton (by omega) flag) fun _ => ih (k + 1) (by omega)
  exact hall flags 0 (by omega)

theorem easy_drawButtons {flags : List Nat} (h : flags.length ≤ 5) : (drawButtons flags).All fun o => easy o = true :=
  (quiet_drawButtons h).mono fun _ => easy_of_quiet

theorem easy_takeKeys : takeKeys.All fun o => easy o = true := quiet_takeKeys.mono fun _ => easy_of_quiet

/-- A window that draws itself, moves on K0 and K1, and leaves on K2. -/
theorem tame_menu {w : Win} {draw up down select : Code Unit} (hdraw : draw.All fun o => easy o = true)
    (hup : up.All fun o => easy o = true) (hdown : down.All fun o => easy o = true) (hselect : Tame n 0 select) :
    Tame n 0 (window w draw do
      let k ← takeKeys
      when (k.k0 = true) up
      when (k.k1 = true) down
      when (k.k2 = true) select) :=
  Tame.window hdraw (Tame.skip easy_takeKeys fun _ => Tame.skip (All.when hup) fun _ => Tame.skip (All.when hdown) fun _ =>
    Tame.when hselect (Nat.zero_le n))

theorem easy_flashSet (id n : Nat) : (flashSet id n).All fun o => easy o = true :=
  All.bind (All.perform rfl) fun _ => All.bind (All.perform rfl) fun _ => All.perform rfl

theorem easy_motoCycle {caller : Caller} : (motoCycle caller).All fun o => easy o = true := by
  refine built_motoCycle (All.compositional _) (fun o ho => All.perform ?_) fun _ hp => All.bind (All.perform rfl) fun _ => hp
  cases o with
  | store v n => cases v <;> first | rfl | cases ho
  | _ => first | rfl | cases ho

theorem tame_userMain2WinFun : Tame 1 0 userMain2WinFun := by
  have htoggle : toggleTwo.All fun o => easy o = true := by
    refine built_toggleTwo (All.compositional _) (All.perform rfl) (fun n hn => All.perform ?_)
      (fun i n hi => All.perform (easy_of_quiet ?_)) fun i hi => All.perform (easy_of_quiet ?_)
    · have h2 : n ≤ 2 := by omega
      simp [easy, inArray, h2]
    · have h4 : i ≤ 4 := by omega
      simp [quiet, inArray, drifts, h4]
    · have h4 : i ≤ 4 := by omega
      simp [quiet, inArray, drifts, h4]
  have hcount : (countUp .manual 8).All fun o => easy o = true := by
    exact all_countUp rfl (fun _ => rfl) fun _ => all_flashSet rfl rfl rfl
  refine tame_menu (All.bind (All.perform rfl) fun _ => All.bind (All.perform rfl) fun _ => easy_drawButtons (by decide))
    htoggle htoggle ?_
  refine (Tame.op (o := .load .nowButtonId) rfl).bind fun (b : Nat) => Tame.ite ?_ ?_
  · refine Tame.mono (Tame.all (n := 1) ?_) (by decide)
    exact All.bind (All.perform rfl) fun _ => All.bind hcount fun _ => All.bind easy_motoCycle fun _ => All.perform rfl
  · exact Tame.pop.bind fun _ => Tame.op rfl

theorem tame_userMain3WinFun : Tame 1 0 userMain3WinFun := by
  refine Tame.window (All.bind (All.perform rfl) fun _ => All.perform rfl) (Tame.mono (Tame.all ?_) (Nat.zero_le 1))
  simp only [showOutcome, leaveProgress, redLight, redOff, greenOff]
  repeat' first
    | with_reducible exact easy_takeKeys | intro _ | with_reducible apply All.bind | with_reducible apply All.when
    | with_reducible exact All.pure _ | split | exact All.perform rfl

/-- A window leaves: it pops itself, displays what is below, and clears its flag. -/
theorem tame_leave {display : Code Unit} (hd : Tame 0 0 display) (w : Win) :
    Tame 1 0 (do guiWinDeleteTop; display; store (.firstFlag w) 0) :=
  Tame.pop.bind fun _ => hd.bind fun _ => Tame.op rfl

theorem easy_of_dial {w : Win} {o : Op} (h : dialMay w o = true) : easy o = true := by
  have hin : ∀ i : Nat, decide (i ≤ 3) = true → decide (i ≤ 4) = true := by
    intro i hi
    have := of_decide_eq_true hi
    exact decide_eq_true (by omega)
  cases o with
  | store v n => cases v <;> first | rfl | exact h | cases h
  | setButton i n => exact Bool.and_eq_true_iff.mpr ⟨hin i h, rfl⟩
  | guiButton i => exact Bool.and_eq_true_iff.mpr ⟨hin i h, rfl⟩
  | _ => first | rfl | cases h

theorem tame_edits {w : Win} {p select : Code Unit} (hw : limit w = 5 ∧ w ≠ .w1) (h : Edits w p select)
    (hselect : Tame n 0 select) : Tame n 0 p := by
  obtain ⟨draw, up, down, rfl, hdraw, hup, hdown⟩ := h
  refine tame_menu (hdraw.mono ?_) (hup.mono fun _ => easy_of_dial) (hdown.mono fun _ => easy_of_dial) hselect
  rintro o (rfl | ho)
  · simp [easy, inArray, hw.1, hw.2]
  · exact easy_of_dial ho

theorem tame_scheduleWinFun {display : Code Unit} (hd : Tame 0 0 display) (k : Schedule) :
    Tame 1 0 (scheduleWinFun display k) := by
  have hsave : Tame 1 0 (scheduleSave k) := by
    unfold scheduleSave
    repeat' first
      | exact Tame.pop | refine Tame.step rfl fun _ => ?_ | refine Tame.skip (easy_flashSet _ _) fun _ => ?_
      | refine Tame.skip (All.when (All.perform rfl)) fun _ => ?_
  refine tame_edits (by cases k <;> decide) (edits_scheduleWinFun k display) ?_
  refine (Tame.op (o := .load (.enableTemp k)) rfl).bind fun (e : Nat) => Tame.ite ?_ ?_
  · exact (Tame.op rfl).bind fun _ => tame_leave hd k.win
  · refine (Tame.op (o := .load .nowSetting) rfl).bind fun (n : Nat) => ?_
    split
    · refine Tame.mono (Tame.all (n := 1) ?_) (by decide)
      exact All.bind (all_drawButton rfl rfl) fun _ => All.bind (all_drawButton rfl rfl) fun _ =>
        All.bind (all_drawButton rfl rfl) fun _ => all_incr rfl fun _ => rfl
    · refine Tame.mono (Tame.all (n := 1) ?_) (by decide)
      exact All.bind (all_drawButton rfl rfl) fun _ => All.bind (all_drawButton rfl rfl) fun _ =>
        All.bind (all_drawButton rfl rfl) fun _ => all_incr rfl fun _ => rfl
    · exact hsave
    · exact Tame.pure () (by decide)

theorem tame_infoWinFun {display : Code Unit} (hd : Tame 0 0 display) {w : Win} {flags : List Nat}
    (hw : limit w = 5 ∧ w ≠ .w1) (hlen : flags.length ≤ 5) : Tame 1 0 (infoWinFun display w flags) := by
  have hflag : easy (.store (.firstFlag w) 1) = true := by simp [easy, inArray, hw.1, hw.2]
  refine Tame.window (All.bind (All.perform hflag) fun _ => easy_drawButtons hlen) ?_
  exact (Tame.all easy_takeKeys).bind fun k => Tame.when (tame_leave hd w) (by decide)

theorem tame_alertWinFun {w : Win} (hw : limit w = 5 ∧ w ≠ .w1) : Tame 1 0 (alertWinFun w) := by
  have hflag : easy (.store (.firstFlag w) 1) = true := by simp [easy, inArray, hw.1, hw.2]
  refine Tame.window (All.bind (All.perform hflag) fun _ => All.bind (All.perform rfl) fun _ => All.perform rfl) ?_
  exact (Tame.all easy_takeKeys).bind fun k => Tame.when (Tame.pop.bind fun _ => Tame.op rfl) (by decide)

theorem tame_userMain6WinFun {display : Code Unit} (hd : Tame 0 0 display) : Tame 1 0 (userMain6WinFun display) := by
  refine tame_edits (by decide) (edits_userMain6WinFun display) ?_
  refine Tame.step rfl fun _ => Tame.step rfl fun (_ : Nat) => Tame.step rfl fun _ => Tame.step rfl fun (_ : Nat) => ?_
  exact Tame.skip (easy_flashSet _ _) fun _ => Tame.pop.bind fun _ => hd

theorem tame_userMain15WinFun {display : Code Unit} (hd : Tame 0 0 display) : Tame 1 0 (userMain15WinFun display) := by
  refine tame_edits (by decide) (edits_userMain15WinFun display) ?_
  refine Tame.step rfl fun (_ : Nat) => Tame.step rfl fun _ => Tame.step rfl fun (_ : Nat) => ?_
  exact Tame.skip (easy_flashSet _ _) fun _ => tame_leave hd .w15

/-- Windows 16 and 17, from what their own operations do. -/
theorem tame_numberSelect {display : Code Unit} (hd : Tame 0 0 display) {w : Win} {setting temp : Var} {id : Nat}
    (hstore : ∀ n, easy (.store setting n) = true) : Tame 1 0 (numberSelect display w setting temp id) := by
  refine Tame.step rfl fun (b : Nat) => ?_
  split
  · refine Tame.mono (Tame.all (n := 1) ?_) (by decide)
    exact All.bind (All.perform rfl) fun _ => All.bind (all_drawButton rfl rfl) fun _ => all_drawButton rfl rfl
  · refine Tame.step rfl fun n => Tame.step (hstore n) fun _ => Tame.step rfl fun n => ?_
    exact Tame.skip (easy_flashSet id n) fun _ => tame_leave hd w
  · exact tame_leave hd w
  · exact Tame.pure () (by decide)

theorem tame_userMain16WinFun {display : Code Unit} (hd : Tame 0 0 display) : Tame 1 0 (userMain16WinFun display) :=
  tame_edits (by decide) (edits_userMain16WinFun display) (tame_numberSelect hd fun _ => rfl)

theorem tame_userMain17WinFun {display : Code Unit} (hd : Tame 0 0 display) : Tame 1 0 (userMain17WinFun display) :=
  tame_edits (by decide) (edits_userMain17WinFun display) (tame_numberSelect hd fun _ => rfl)

theorem tame_userMain19WinFun {display : Code Unit} (hd : Tame 0 0 display) : Tame 1 0 (userMain19WinFun display) := by
  have hfactory : flashFactory.All fun o => easy o = true :=
    All.bind (All.perform rfl) fun _ => (All.compositional _).foldr (fun i => easy_flashSet i 0) _
  refine tame_edits (by decide) (edits_userMain19WinFun display) (Tame.step rfl fun (b : Nat) => ?_)
  split
  · exact Tame.mono (Tame.all (n := 1) (All.bind hfactory fun _ => All.perform rfl)) (by decide)
  · exact tame_leave hd .w19
  · exact Tame.pure () (by decide)

theorem tame_userMain23WinFun : Tame 2 0 userMain23WinFun := by
  refine Tame.window (All.bind (All.perform rfl) fun _ => All.bind (All.perform rfl) fun _ => All.bind (All.perform rfl)
    fun _ => All.bind (All.perform rfl) fun _ => All.perform rfl) ?_
  refine Tame.skip (p := tdsWork) ?_ fun (v : Nat) => Tame.step rfl fun _ => Tame.step rfl fun _ =>
    Tame.skip easy_takeKeys fun k => Tame.when ?_ (by decide)
  · exact all_tdsWork rfl rfl rfl
  · exact Tame.pop.bind fun _ => Tame.pop.bind fun _ => Tame.op rfl

theorem tame_userMain25WinFun {display : Code Unit} (hd : Tame 0 0 display) : Tame 1 0 (userMain25WinFun display) := by
  have hauto : jumptoAutomatic.All fun o => easy o = true := by
    exact All.bind (All.perform rfl) fun _ =>
      All.bind (all_countUp rfl (fun _ => rfl) fun _ => easy_flashSet _ _) fun _ => All.perform rfl
  refine Tame.window (All.bind (All.perform rfl) fun _ => All.bind (All.perform rfl) fun _ => All.bind (All.perform rfl)
    fun _ => All.perform rfl) ?_
  refine Tame.mono (m := 0) ?_ (Nat.le_refl 0)
  refine Tame.skip easy_takeKeys fun k => Tame.bind (m := 0) (Tame.when ?_ (by decide)) fun _ =>
    Tame.when (Tame.all hauto) (by decide)
  exact Tame.step rfl fun _ => Tame.step rfl fun _ => Tame.step rfl fun _ => fun x hx => hd x (hx.mono (by decide))

end

end Backwash.Lcd.Index
