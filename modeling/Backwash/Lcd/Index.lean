import Backwash.Lcd.Menu
import Backwash.Lcd.Tame

/-! The windows that index the buttons, and every run.

A window that is drawn keeps its entry in its own range, whatever comes between two of its
operations. The main menu does the same, but it may have opened the settings menu before
it goes on with its keys. -/
namespace Backwash.Lcd.Index
open Concurrent Prog Firmware Motor Reach Selection

/-! ### Stable properties -/

section
variable {w : Win} {n c : Nat} {α : Type} {x : Screen} {D : Screen → Prop}

theorem within_stable (w : Win) (n : Nat) : index.Stable (Within w n) := fun _ _ hxy hx => hx.drift hxy

theorem now_stable (P : Nat → Prop) : index.Stable fun x => P x.now := fun x y hxy hx => by
  show P y.now
  rw [hxy.now]
  exact hx

/-- Inside window `w` with an entry up to `c`. -/
def Choosing (w : Win) (n c : Nat) (x : Screen) : Prop := Within w n x ∧ x.now ≤ c

theorem choosing_stable (w : Win) (n c : Nat) : index.Stable (Choosing w n c) :=
  (within_stable w n).and (now_stable (· ≤ c))

theorem run_quiet (hD : index.Stable D) {p : Code α} (hp : p.All fun o => quiet o = true) (hx : D x) :
    index.Run p x fun _ y => D y :=
  Rely.Run.all hD (hp.mono fun _ ho => ⟨(Bool.and_eq_true_iff.mp ho).1, fun y r hy _ _ =>
    hD (drift_after (Bool.and_eq_true_iff.mp ho).2 r y) hy⟩) hx

theorem run_op (hD : index.Stable D) {o : Op} (ho : quiet o = true) (hx : D x) : index.Run (perform o) x fun _ y => D y :=
  run_quiet hD (All.perform ho) hx

/-- What is read from `NowButtonId` is the entry. -/
theorem run_load (hD : index.Stable D) (hx : D x) : index.Run (load .nowButtonId) x fun b y => D y ∧ y.now = b :=
  Rely.Run.perform hD hx rfl fun _ _ hy _ hcan => ⟨hy, hcan.symm⟩

/-- The selected button is accessed. -/
theorem run_drawNowButton (hD : index.Stable D) (hle : ∀ y, D y → y.now ≤ 4) (m : Nat) (hx : D x) :
    index.Run (drawNowButton m) x fun _ y => D y := by
  refine (run_load hD hx).bind fun b y hy => ?_
  have hb : b ≤ 4 := hy.2 ▸ hle y hy.1
  exact run_quiet hD (quiet_drawButton hb m) hy.1

/-- An entry is stored. -/
theorem run_entry (hx : Within w n x) {m : Nat} (hm : m % 2 ^ 8 ≤ c) :
    index.Run (store .nowButtonId m) x fun _ y => Choosing w n c y :=
  Rely.Run.perform (within_stable w n) hx rfl fun _ _ hy _ _ => ⟨hy.same rfl fun _ hr => hr, hm⟩

theorem run_incr (hx : Choosing w n c x) : index.Run (incr .nowButtonId) x fun _ y => Choosing w n (c + 1) y :=
  (run_load (choosing_stable w n c) hx).bind fun _ _ hy =>
    run_entry hy.1.1 (Nat.le_trans (Nat.mod_le _ _) (Nat.succ_le_succ (hy.2 ▸ hy.1.2)))

theorem run_decr {b : Nat} (hx : Within w n x ∧ x.now = b) (hb : 0 < b ∧ b < 2 ^ 8) :
    index.Run (decr .nowButtonId) x fun _ y => Choosing w n (b - 1) y := by
  refine (run_load ((within_stable w n).and (now_stable (· = b))) hx).bind fun m y hy => run_entry hy.1.1 ?_
  obtain rfl : m = b := hy.2.symm.trans hy.1.2
  show (m + (2 ^ 8 - 1)) % 2 ^ 8 ≤ m - 1
  omega

/-! ### Steps between entries -/

/-- One entry on, and from the last back to the first. -/
theorem run_next (hc : c ≤ 3) {first : Nat} (hf : first ≤ c) (hx : Choosing w n c x) :
    index.Run (do
      drawNowButton 0
      incr .nowButtonId
      let b ← load .nowButtonId
      when (b = c + 1) (store .nowButtonId first)
      drawNowButton 1) x fun _ y => Choosing w n c y := by
  have hle : ∀ y, Choosing w n c y → y.now ≤ 4 := fun y hy => Nat.le_trans hy.2 (by omega)
  refine (run_drawNowButton (choosing_stable w n c) hle 0 hx).bind fun _ y hy => ?_
  refine (run_incr hy).bind fun _ z hz => (run_load (choosing_stable w n (c + 1)) hz).bind fun b u hu => ?_
  refine Rely.Run.bind (Rely.Run.when (fun _ => run_entry hu.1.1 (Nat.le_trans (Nat.mod_le _ _) hf)) fun hb => ?_)
    fun _ v hv => run_drawNowButton (choosing_stable w n c) hle 1 hv
  refine ⟨hu.1.1, ?_⟩
  have hnow := hu.1.2
  rw [hu.2] at hnow ⊢
  omega

/-- One entry back, and from the first on to entry `c`. -/
theorem run_previous (hc : c ≤ 3) (hx : Choosing w n c x) :
    index.Run (do
      drawNowButton 0
      let b ← load .nowButtonId
      (if b > 0 then decr .nowButtonId else store .nowButtonId c)
      drawNowButton 1) x fun _ y => Choosing w n c y := by
  have hle : ∀ y, Choosing w n c y → y.now ≤ 4 := fun y hy => Nat.le_trans hy.2 (by omega)
  refine (run_drawNowButton (choosing_stable w n c) hle 0 hx).bind fun _ y hy => ?_
  refine (run_load (choosing_stable w n c) hy).bind fun b z hz => ?_
  have hb : b ≤ c := hz.2 ▸ hz.1.2
  refine Rely.Run.bind (R := fun _ u => Choosing w n c u) (Rely.Run.ite (fun hpos => ?_) fun _ => ?_)
    fun _ u hu => run_drawNowButton (choosing_stable w n c) hle 1 hu
  · exact (run_decr ⟨hz.1.1, hz.2⟩ ⟨hpos, by omega⟩).mono fun _ u hu => ⟨hu.1, Nat.le_trans hu.2 (by omega)⟩
  · exact run_entry hz.1.1 (Nat.mod_le _ _)

/-! ### Opening and leaving -/

/-- A window that comes to the top: drawn, it has an entry within its limit. -/
def Ready (w : Win) (n : Nat) (x : Screen) : Prop := Within w n x ∧ (x.flag w ≠ 0 → x.now ≤ limit w)

theorem ready_stable (w : Win) (n : Nat) : index.Stable (Ready w n) := fun _ _ hxy hx =>
  ⟨hx.1.drift hxy, fun hf => hxy.now ▸ hx.2 (hxy.drawn hf)⟩

/-- The window draws itself or reads its keys. -/
theorem run_window {draw keys : Code Unit} {Q : Unit → Screen → Prop} (hD : index.Stable D) (hr : Ready w n x) (hx : D x)
    (hdraw : ∀ y, Ready w n y → D y → index.Run draw y Q) (hkeys : ∀ y, Choosing w n (limit w) y → D y → index.Run keys y Q) :
    index.Run (window w draw keys) x Q := by
  refine Rely.Run.bind (R := fun f y => Ready w n y ∧ D y ∧ f = y.flag w)
    (Rely.Run.perform ((ready_stable w n).and hD) ⟨hr, hx⟩ rfl fun y f hy _ hcan => ⟨hy.1, hy.2, hcan⟩) fun (f : Nat) y hy => ?_
  obtain ⟨hready, hd, hf⟩ := hy
  exact Rely.Run.ite (fun _ => hdraw y hready hd) fun hne => hkeys y ⟨hready.1, hready.2 (hf ▸ hne)⟩ hd

/-- Inside a window its flag may be set. -/
theorem within_flag (h : Within w n x) (m : Nat) (r : Unit) : Within w n (x.after (.store (.firstFlag w) m) r) := by
  have hother : ∀ u, u ≠ w → (x.after (.store (.firstFlag w) m) r).flag u = x.flag u := fun u hu =>
    Function.update_of_ne hu ..
  refine h.same rfl fun s hs => ⟨hs.1.congr fun u hu => ?_, hs.2.top, hs.2.tier_le, fun u hu hf => ?_⟩
  · by_cases huw : u = w
    · exact .inr (.inr (huw ▸ hs.2.top))
    · exact .inl (by rwa [hother u huw] at hu)
  · by_cases huw : u = w
    · exact .inl huw
    · exact hs.2.suits u hu (by rwa [hother u huw] at hf)

/-- The window sets its flag, then its entry. -/
theorem run_draw (hi : indexes w = true) {first : Nat} (hf : first ≤ 2) {rest : Code Unit}
    (hrest : rest.All fun o => quiet o = true) (hx : Within w n x) :
    index.Run (do store (.firstFlag w) 1; store .nowButtonId first; rest) x fun _ y => Held n y := by
  have hflag : index.Run (store (.firstFlag w) 1) x fun _ y => Within w n y :=
    Rely.Run.perform (within_stable w n) hx rfl fun _ r hy _ _ => within_flag hy 1 r
  refine hflag.bind fun _ y hy => (run_entry hy (Nat.mod_le first _)).bind fun _ z hz => ?_
  exact run_quiet (held_stable n) hrest (hz.1.held hi (Nat.le_trans hz.2 (Nat.le_trans hf (two_le_leaves w))))

/-- A menu opens a window that suits its entry. -/
theorem held_open {v : Win} (h : Held n x) (hx : Within w n x) (hv : v ≠ .w1) (h23 : v = .w23 → 1 ≤ n)
    (htier : tier w < tier v) (hleaves : leaves v = 2 ∨ (indexes w = true ∧ leaves v ≤ leaves w))
    (hfit : x.now ≤ limit v) (r : Unit) : Held n (x.after (.guiWinAdd v) r) := by
  refine ⟨h.deep.push hv h23 (fun i hi hs => ⟨?_, fun u hu hf => ?_⟩) rfl rfl, h.sane⟩
  · obtain ⟨-, hover⟩ := hx i hi
    refine hs.1.cons (by omega) (fun l hl => .inl (Nat.lt_of_le_of_lt (hover.tier_le l hl) htier)) fun l hl hf => ?_
    rcases hleaves with h2 | ⟨hi, hle⟩
    · rw [h2]
      exact two_le_limit l
    · rcases hover.suits l hl hf with rfl | hl
      · rw [← leaves_eq hi]
        exact hle
      · exact Nat.le_trans hle hl
  · rcases List.mem_cons.mp hu with rfl | hu
    · exact hfit
    · exact hs.2 u hu hf

/-- A menu opens the window of the selected entry. -/
theorem run_open {v : Win} (hi : indexes w = true) (hx : Choosing w n c x)
    (hv : v ≠ .w1 ∧ v ≠ .w23 ∧ tier w < tier v ∧ leaves v ≤ leaves w) (hc : c ≤ leaves w ∧ c ≤ limit v) :
    index.Run (guiWinAdd v) x fun _ y => Held 0 y := by
  refine Rely.Run.perform (choosing_stable w n c) hx rfl fun y r hy _ _ => ?_
  have hheld : Held n y := hy.1.held hi (Nat.le_trans hy.2 hc.1)
  exact (held_open hheld hy.1 hv.1 (fun e => absurd e hv.2.1) hv.2.2.1 (.inr ⟨hi, hv.2.2.2⟩) (Nat.le_trans hy.2 hc.2) r).mono
    (Nat.zero_le n)

/-! ### The menus and the counters -/

theorem Choosing.held (h : Choosing w n c x) (hi : indexes w = true) (hc : c ≤ leaves w) : Held n x :=
  h.1.held hi (Nat.le_trans h.2 hc)

/-- What was read is the entry, exactly. -/
theorem run_selected {f : Nat → Code Unit} {Q : Unit → Screen → Prop} (hx : Choosing w n c x)
    (hf : ∀ b y, b ≤ c → Choosing w n b y → index.Run (f b) y Q) : index.Run (do let b ← load .nowButtonId; f b) x Q :=
  (run_load (choosing_stable w n c) hx).bind fun b y hy => hf b y (hy.2 ▸ hy.1.2) ⟨hy.1.1, Nat.le_of_eq hy.2⟩

/-- K0 and K1 move, then K2 selects. -/
theorem run_menu {up down select : Code Unit} {k : Keys}
    (hup : ∀ y, Choosing w n c y → index.Run up y fun _ z => Choosing w n c z)
    (hdown : ∀ y, Choosing w n c y → index.Run down y fun _ z => Choosing w n c z) {Q : Unit → Screen → Prop}
    (hselect : ∀ y, Choosing w n c y → index.Run select y Q) (hstay : ∀ y, Choosing w n c y → Q () y) (hx : Choosing w n c x) :
    index.Run (do when (k.k0 = true) up; when (k.k1 = true) down; when (k.k2 = true) select) x Q :=
  Rely.Run.bind (Rely.Run.when (fun _ => hup x hx) fun _ => hx) fun _ y hy =>
    Rely.Run.bind (Rely.Run.when (fun _ => hdown y hy) fun _ => hy) fun _ z hz =>
      Rely.Run.when (fun _ => hselect z hz) fun _ => hstay z hz

/-- Windows 7 and 8, from what they do with the selected entry. -/
theorem run_infoMenu (hi : indexes w = true) (h3 : limit w = 3) {enter : Nat → Code Unit}
    (henter : ∀ b y, b ≤ 3 → Choosing w 1 b y → index.Run (enter b) y fun _ z => Held 0 z) (hx : Ready w 1 x) :
    index.Run (window w
      (do
        store (.firstFlag w) 1
        store .nowButtonId 0
        drawButtons [1, 0, 0, 0, 1])
      (do
        let k ← takeKeys
        when (k.k0 = true) menuUp
        when (k.k1 = true) menuDown
        when (k.k2 = true) do
          let b ← load .nowButtonId
          enter b
          store (.firstFlag w) 0)) x fun _ y => Held 0 y := by
  have hl : 3 ≤ leaves w := Nat.le_of_eq ((leaves_eq hi).trans h3).symm
  refine run_window (now_stable fun _ => True) hx trivial (fun y hy _ => ?_) fun y hy _ => ?_
  · exact (run_draw hi (by decide) (quiet_drawButtons (by decide)) hy.1).mono fun _ z hz => hz.mono (by decide)
  rw [h3] at hy
  refine (run_quiet (choosing_stable _ _ _) quiet_takeKeys hy).bind fun k z hz => ?_
  refine run_menu (fun _ h => run_previous (by decide) h) (fun _ h => run_next (by decide) (by decide) h) (fun u hu => ?_)
    (fun u hu => (hu.held hi hl).mono (by decide)) hz
  exact run_selected hu fun b v hb hv => Rely.Run.bind (henter b v hb hv) fun _ t ht => Tame.op rfl t ht

theorem run_userMain7WinFun {display : Code Unit} (hd : Tame 0 0 display) (hx : Ready .w7 1 x) :
    index.Run (userMain7WinFun display) x fun _ y => Held 0 y := by
  refine run_infoMenu rfl rfl (fun b v hb hv => ?_) hx
  split
  · exact run_open rfl hv (by decide) (by decide)
  · exact run_open rfl hv (by decide) (by decide)
  · exact run_open rfl hv (by decide) (by decide)
  · exact (Tame.pop.bind fun _ => hd) v (hv.held rfl (by decide))
  · exact (hv.held rfl hb).mono (by decide)

theorem run_userMain8WinFun (hx : Ready .w8 1 x) : index.Run userMain8WinFun x fun _ y => Held 0 y := by
  refine run_infoMenu rfl rfl (fun b v hb hv => ?_) hx
  split
  · exact run_open rfl hv (by decide) (by decide)
  · exact run_open rfl hv (by decide) (by decide)
  · exact run_open rfl hv (by decide) (by decide)
  · exact Tame.pop v (hv.held rfl (by decide))
  · exact (hv.held rfl hb).mono (by decide)

theorem run_counterWinFun {k : Counter} {id : Nat} {t : Text} (hi : indexes w = true) (h2 : limit w = 2)
    (hx : Ready w 1 x) : index.Run (counterWinFun w k id t) x fun _ y => Held 0 y := by
  have hl : leaves w = 2 := (leaves_eq hi).trans h2
  refine run_window (now_stable fun _ => True) hx trivial (fun y hy _ => ?_) fun y hy _ => ?_
  · refine (run_draw hi (by decide) ?_ hy.1).mono fun _ z hz => hz.mono (by decide)
    exact All.bind (All.perform rfl) fun _ => All.bind (All.perform rfl) fun _ => quiet_drawButtons (by decide)
  rw [h2] at hy
  refine (run_quiet (choosing_stable _ _ _) quiet_takeKeys hy).bind fun k z hz => ?_
  refine Rely.Run.bind (Rely.Run.when (fun _ => run_next (by decide) (by decide : 1 ≤ 2) hz) fun _ => hz) fun _ u hu =>
    Rely.Run.when (fun _ => ?_) fun _ => (hu.held hi (Nat.le_of_eq hl.symm)).mono (by decide)
  refine run_selected hu fun b v hb hv => Rely.Run.bind (R := fun _ t => Held 0 t) ?_ fun _ t ht => Tame.op rfl t ht
  have hheld : Held 1 v := hv.held hi (hl ▸ hb)
  split
  · exact (Tame.step rfl fun _ => Tame.skip (easy_flashSet id 0) fun _ => Tame.pop) v hheld
  · exact Tame.pop v hheld
  · exact hheld.mono (by decide)

theorem run_userMain20WinFun (hx : Ready .w20 1 x) : index.Run userMain20WinFun x fun _ y => Held 0 y := by
  have hsave : ∀ m, Tame 1 0 (saveLanguage m) := fun m =>
    Tame.step rfl fun _ => Tame.step rfl fun (l : Nat) => Tame.skip (easy_flashSet 15 l) fun _ =>
      Tame.pop.bind fun _ => Tame.op rfl
  refine run_window (now_stable fun _ => True) hx trivial (fun y hy _ => ?_) fun y hy _ => ?_
  · refine (run_draw rfl (by decide) ?_ hy.1).mono fun _ z hz => hz.mono (by decide)
    exact All.bind (All.perform rfl) fun _ => All.bind (All.perform rfl) fun _ => quiet_drawButtons (by decide)
  refine (run_quiet (choosing_stable _ _ _) quiet_takeKeys hy).bind fun k z hz => ?_
  refine run_menu (fun _ h => run_next (by decide) (by decide) h) (fun _ h => run_previous (by decide) h) (fun u hu => ?_)
    (fun u hu => (hu.held rfl (by decide)).mono (by decide)) hz
  refine run_selected hu fun b v hb hv => ?_
  have hheld : Held 1 v := hv.held rfl hb
  split
  · exact hsave 0 v hheld
  · exact hsave 1 v hheld
  · exact (Tame.pop.bind fun _ => Tame.op rfl) v hheld
  · exact hheld.mono (by decide)

/-- Window 21 opens window 23, which pops both. -/
theorem run_userMain21WinFun (hx : Held 1 x ∧ Within .w21 1 x) : index.Run userMain21WinFun x fun _ y => Held 0 y := by
  have hstable : index.Stable fun y => Held 1 y ∧ Within .w21 1 y := (held_stable 1).and (within_stable .w21 1)
  refine (run_op hstable (o := .load (.firstFlag .w21)) rfl hx).bind fun (f : Nat) y hy =>
    Rely.Run.ite (fun _ => ?_) fun _ => ?_
  · refine ((Tame.all ?_) y hy.1).mono fun _ z hz => hz.mono (by decide)
    simp only [drawButton]
    repeat' first | intro _ | with_reducible apply All.bind | exact All.perform rfl
  refine (run_quiet hstable quiet_takeKeys hy).bind fun k z hz => ?_
  refine Rely.Run.bind (run_quiet hstable ?_ hz) fun _ u hu => Rely.Run.bind (run_quiet hstable ?_ hu) fun _ v hv =>
    Rely.Run.when (fun _ => (run_op hstable (o := .load .tdsPasswordTemp) rfl hv).bind fun (m : Nat) t ht => ?_)
      fun _ => hv.1.mono (by decide)
  · simp only [decr]
    refine All.when ?_
    repeat' first | intro _ | with_reducible apply All.bind | with_reducible apply All.when | exact All.perform rfl
  · simp only [incr]
    refine All.when ?_
    repeat' first | intro _ | with_reducible apply All.bind | exact All.perform rfl
  · refine Rely.Run.bind (R := fun _ t => Held 0 t) (Rely.Run.ite (fun _ => ?_) fun _ => Tame.pop t ht.1) fun _ t ht =>
      Tame.op rfl t ht
    exact Rely.Run.perform hstable ht rfl fun _ r hy _ _ =>
      (held_open (v := .w23) hy.1 hy.2 (by decide) (fun _ => by decide) (by decide) (.inl rfl) hy.1.sane.now_le r).mono
        (by decide)

/-! ### The settings menu -/

/-- The entry is sane and at most `c`. -/
def Upto (c : Nat) (x : Screen) : Prop := Sane x ∧ x.now ≤ c

theorem upto_stable (c : Nat) : index.Stable (Upto c) := fun _ _ hxy hx => ⟨hx.1.drift hxy, hxy.now ▸ hx.2⟩

theorem late_stable (c : Nat) : index.Stable (Late c) := fun _ _ hxy hx => hx.drift hxy

theorem Choosing.upto (h : Choosing w n 3 x) (hc : 3 ≤ c) : Upto c x :=
  ⟨.inl (Nat.le_trans h.2 (by decide)), Nat.le_trans h.2 hc⟩

/-- With the settings menu or a window of its own on top an entry is stored. -/
theorem run_late_entry {P : Nat → Prop} {m d : Nat} (hm : m % 2 ^ 8 ≤ 5) (hd : d ≤ 2)
    (hchoice : ∀ b, P b → b ≤ c → m % 2 ^ 8 ≤ 3 → m % 2 ^ 8 ≤ d) (hx : Late c x ∧ P x.now) :
    index.Run (store .nowButtonId m) x fun _ y => Late d y ∧ y.now = m % 2 ^ 8 :=
  Rely.Run.perform ((late_stable c).and (now_stable P)) hx rfl fun y r hy hallow _ =>
    ⟨Late.store (y := y.after (.store .nowButtonId m) r) hy.1 rfl rfl hm hd hallow fun hle hmem hf =>
      hchoice y.now hy.2 (hy.1.choice hmem hf) hle, rfl⟩

theorem run_userMain14Draw {first : Nat} (hf : first ≤ 3) {flags : List Nat} (hl : flags.length ≤ 5) (hc : 3 ≤ c)
    (hx : Within .w14 n x) :
    index.Run (do store .nowButtonId first; drawButtons flags; store (.firstFlag .w14) 1) x fun _ y => Late 0 y ∧ Upto c y := by
  refine (run_entry hx (Nat.le_trans (Nat.mod_le _ _) hf)).bind fun _ y hy => ?_
  refine (run_quiet (choosing_stable _ _ _) (quiet_drawButtons hl) hy).bind fun _ z hz => ?_
  refine Rely.Run.perform (choosing_stable _ _ _) hz rfl fun u r hu _ _ => ?_
  have hflag : Choosing .w14 n 3 (u.after (.store (.firstFlag .w14) 1) r) := ⟨within_flag hu.1 1 r, hu.2⟩
  exact ⟨hflag.1.late fun _ => hflag.2, hflag.upto hc⟩

theorem quiet_storePage (page : Option Nat) : (storePage page).All fun o => quiet o = true := by
  cases page with
  | none => exact All.pure ()
  | some n => exact All.perform rfl

theorem run_userMain14Up (hx : Choosing .w14 n 3 x) : index.Run userMain14Up x fun _ y => Choosing .w14 n 3 y := by
  refine run_selected hx fun b y hb hy => Rely.Run.ite (fun _ => ?_) fun _ => ?_
  · refine run_quiet (choosing_stable _ _ _) ?_ ⟨hy.1, Nat.le_trans hy.2 hb⟩
    exact All.bind (All.perform rfl) fun _ => All.bind (quiet_storePage _) fun _ => All.perform rfl
  have hle : ∀ y, Choosing .w14 n 3 y → y.now ≤ 4 := fun y hy => Nat.le_trans hy.2 (by decide)
  refine (run_drawNowButton (choosing_stable _ _ _) hle 0 ⟨hy.1, Nat.le_trans hy.2 hb⟩).bind fun _ z hz => ?_
  refine (run_load (choosing_stable _ _ _) hz).bind fun m u hu => ?_
  have hm : m ≤ 3 := hu.2 ▸ hu.1.2
  refine Rely.Run.bind (R := fun _ v => Choosing .w14 n 3 v) (Rely.Run.when (fun hpos => ?_) fun _ => hu.1) fun _ v hv =>
    run_drawNowButton (choosing_stable _ _ _) hle 1 hv
  exact (run_decr ⟨hu.1.1, hu.2⟩ ⟨hpos, by omega⟩).mono fun _ v hv => ⟨hv.1, Nat.le_trans hv.2 (by omega)⟩

theorem run_userMain14Down (hx : Choosing .w14 n 3 x) : index.Run userMain14Down x fun _ y => Choosing .w14 n 3 y := by
  refine run_selected hx fun b y hb hy => Rely.Run.ite (fun _ => ?_) fun hne => ?_
  · refine run_quiet (choosing_stable _ _ _) ?_ ⟨hy.1, Nat.le_trans hy.2 hb⟩
    exact All.bind (All.perform rfl) fun _ => All.bind (quiet_storePage _) fun _ => All.perform rfl
  have hle : ∀ y, Choosing .w14 n 3 y → y.now ≤ 4 := fun y hy => Nat.le_trans hy.2 (by decide)
  refine (run_drawNowButton (choosing_stable _ _ _) (fun z hz => Nat.le_trans hz.2 (by omega)) 0 hy).bind fun _ z hz => ?_
  refine (run_incr hz).bind fun _ u hu => run_drawNowButton (choosing_stable _ _ _) hle 1 ⟨hu.1, Nat.le_trans hu.2 ?_⟩
  omega

theorem run_userMain14Entry (page b : Nat) (hx : Choosing .w14 1 b x ∧ x.flag .w14 = 0) :
    index.Run (userMain14Entry page b) x fun _ y => Late 2 y := by
  have hstable : index.Stable fun y => Choosing .w14 1 b y ∧ y.flag .w14 = 0 := fun _ _ hxy hy =>
    ⟨choosing_stable _ _ _ hxy hy.1, hxy.undrawn hy.2⟩
  have hpush : ∀ v, tier v = 2 → b ≤ limit v → index.Run (guiWinAdd v) x fun _ y => Late 2 y := fun v hv hb =>
    Rely.Run.perform hstable hx rfl fun _ _ hy _ _ =>
      hy.1.1.late_push hy.2 hv (fun _ => Nat.le_trans hy.1.2 hb) rfl rfl rfl
  have hpop : index.Run guiWinDeleteTop x fun _ y => Late 2 y :=
    Rely.Run.perform hstable hx rfl fun y r hy _ _ =>
      Within.late (n := 0) (Deep.pop hy.1.1 rfl rfl) fun hf => absurd hy.2 hf
  have hstay : Late 2 x := hx.1.1.late fun hf => absurd hx.2 hf
  unfold userMain14Entry
  split
  all_goals first | exact hpush _ rfl (by decide) | exact hpop | exact hstay

theorem run_userMain14Select (hx : Choosing .w14 1 3 x) : index.Run userMain14Select x fun _ y => Late 0 y ∧ y.now ≤ 3 := by
  have hstable : index.Stable fun y => Choosing .w14 1 3 y ∧ y.flag .w14 = 0 := fun _ _ hxy hy =>
    ⟨choosing_stable _ _ _ hxy hy.1, hxy.undrawn hy.2⟩
  refine Rely.Run.bind (R := fun _ y => Choosing .w14 1 3 y ∧ y.flag .w14 = 0)
    (Rely.Run.perform (choosing_stable _ _ _) hx rfl fun y r hy _ _ =>
      ⟨choosing_stable _ _ _ (drift_after rfl r y) hy, flag_cleared .w14 r y⟩) fun _ y hy => ?_
  refine (run_op hstable (o := .load .win14PageID) rfl hy).bind fun (page : Nat) z hz => ?_
  refine (run_load hstable hz).bind fun b u hu => ?_
  have hin : Choosing .w14 1 b u ∧ u.flag .w14 = 0 := ⟨⟨hu.1.1.1, Nat.le_of_eq hu.2⟩, hu.1.2⟩
  refine Rely.Run.bind (R := fun _ v => Late 2 v) (Rely.Run.when (fun _ => run_userMain14Entry page b hin) fun _ => ?_)
    fun _ v hv => (run_op (late_stable 2) (o := .store .win14PageID 0) rfl hv).bind fun _ t ht => ?_
  · exact hin.1.1.late fun hf => absurd hin.2 hf
  · exact (run_late_entry (P := fun _ => True) (m := 0) (d := 0) (by decide) (by decide) (fun _ _ _ h => by decide)
      ⟨ht, trivial⟩).mono fun _ s hs => ⟨hs.1, by rw [hs.2]; decide⟩

theorem run_userMain14WinFun (hc : 3 ≤ c) (hx : Ready .w14 1 x) (hu : Upto c x) :
    index.Run userMain14WinFun x fun _ y => Late 0 y ∧ Upto c y := by
  refine run_window (upto_stable c) hx hu (fun y hy hyc => ?_) fun y hy _ => ?_
  · have hstable := (ready_stable .w14 1).and (upto_stable c)
    refine (run_op hstable (o := .load .win14PageID) rfl ⟨hy, hyc⟩).bind fun (page : Nat) z hz => ?_
    refine Rely.Run.ite (fun _ => run_userMain14Draw (by decide) (by decide) hc hz.1.1) fun _ =>
      Rely.Run.when (fun _ => run_userMain14Draw (by decide) (by decide) hc hz.1.1) fun _ => ⟨hz.1.1.late hz.1.2, hz.2⟩
  refine (run_quiet (choosing_stable _ _ _) quiet_takeKeys hy).bind fun k z hz => ?_
  refine run_menu (fun _ => run_userMain14Up) (fun _ => run_userMain14Down) (fun u hu => ?_)
    (fun u hu => ⟨hu.1.late fun _ => hu.2, hu.upto hc⟩) hz
  exact (run_userMain14Select hu).mono fun _ v hv =>
    ⟨hv.1, .inl (Nat.le_trans hv.2 (by decide)), Nat.le_trans hv.2 hc⟩

/-! ### The main menu -/

/-- The main menu is on top, or nothing is. -/
def Main (x : Screen) : Prop := reach x.wins = []

theorem main_stable : index.Stable Main := fun _ _ hxy hx => hxy.reach_wins.elim id fun h => h.trans hx

theorem late_upto_stable (c d : Nat) : index.Stable fun x => Late c x ∧ x.now ≤ d := (late_stable c).and (now_stable (· ≤ d))

theorem Main.late (h : Main x) (c : Nat) : Late c x := Late.of_nil h

/-- The main menu draws its page. -/
theorem run_userMain1Draw (hc : 4 ≤ c) (hx : Main x ∧ Upto c x) : index.Run userMain1Draw x fun _ y => Main y ∧ Upto c y := by
  have hstable : index.Stable fun y => Main y ∧ y.now ≤ 4 := main_stable.and (now_stable (· ≤ 4))
  have hdone : ∀ y, Main y ∧ y.now ≤ 4 → Main y ∧ Upto c y := fun y hy => ⟨hy.1, .inl hy.2, Nat.le_trans hy.2 hc⟩
  have hentry : ∀ y m, m % 2 ^ 8 ≤ 4 → Main y → index.Run (store .nowButtonId m) y fun _ z => Main z ∧ z.now ≤ 4 :=
    fun y m hm hy => Rely.Run.perform main_stable hy rfl fun _ _ hz _ _ => ⟨hz, hm⟩
  have hrest : ∀ {p : Code Unit} {y : Screen}, (p.All fun o => (quiet o || o == .store (.firstFlag .w1) 1) = true) →
      Main y ∧ y.now ≤ 4 → index.Run p y fun _ z => Main z ∧ Upto c z := by
    intro p y hp hy
    refine (Rely.Run.all hstable (hp.mono fun o ho => ?_) hy).mono fun _ => hdone
    rcases Bool.or_eq_true_iff.mp ho with ho | ho
    · obtain ⟨hin, hd⟩ := Bool.and_eq_true_iff.mp ho
      exact ⟨hin, fun z r hz _ _ => hstable (drift_after hd r z) hz⟩
    · obtain rfl : o = .store (.firstFlag .w1) 1 := by simpa using ho
      exact ⟨rfl, fun z r hz _ _ => hz⟩
  refine Rely.Run.bind (R := fun page y => (Main y ∧ Upto c y) ∧ page = y.page)
    (Rely.Run.perform (main_stable.and (upto_stable c)) hx rfl fun _ _ hy _ hcan => ⟨hy, hcan⟩) fun (page : Nat) y hy => ?_
  split
  · refine (hentry y 0 (by decide) hy.1.1).bind fun _ z hz => hrest ?_ hz
    repeat' first | intro _ | with_reducible apply All.bind | exact All.perform rfl
  · -- on page 1 the entry is one of the buttons
    have hnow : y.now ≤ 4 := hy.1.2.1.resolve_right fun h => h.2.2 hy.2.symm
    refine hrest ?_ ⟨hy.1.1, hnow⟩
    simp only [drawButton]
    repeat' first | intro _ | with_reducible apply All.bind | exact All.perform rfl
  · refine (hentry y 3 (by decide) hy.1.1).bind fun _ z hz => hrest ?_ hz
    repeat' first | intro _ | with_reducible apply All.bind | exact All.perform rfl
  · exact hy.1

/-- Another page is chosen. -/
theorem run_page (hD : index.Stable D) (hpage : ∀ y m r, D y → D (y.after (.store .win1PageID m) r)) (m : Nat) (hx : D x) :
    index.Run (store .win1PageID m) x fun _ y => D y :=
  Rely.Run.perform hD hx rfl fun y r hy _ _ => hpage y m r hy

theorem late_page {d : Nat} (y : Screen) (m : Nat) (r : Unit) (hy : Late c y ∧ y.now ≤ d) :
    Late c (y.after (.store .win1PageID m) r) ∧ (y.after (.store .win1PageID m) r).now ≤ d :=
  ⟨hy.1.same rfl rfl rfl, hy.2⟩

theorem run_late_decr {b : Nat} (hb : 1 ≤ b ∧ b ≤ 4) (hx : Late 0 x ∧ x.now = b) :
    index.Run (decr .nowButtonId) x fun _ y => Late 0 y ∧ y.now ≤ 4 := by
  refine (run_load ((late_stable 0).and (now_stable (· = b))) hx).bind fun m y hy => ?_
  obtain rfl : m = b := hy.2.symm.trans hy.1.2
  have hm : (m + (2 ^ 8 - 1)) % 2 ^ 8 = m - 1 := by omega
  refine (run_late_entry (P := (· = m)) (m := m + (2 ^ 8 - 1)) (d := 0) (by omega) (by decide) (fun b hbm hle _ => ?_)
    ⟨hy.1.1, hy.2⟩).mono fun _ z hz => ⟨hz.1, by rw [hz.2, hm]; omega⟩
  omega

theorem run_late_incr {b : Nat} (hb : b ≤ 4) (hx : Late 0 x ∧ x.now = b) :
    index.Run (incr .nowButtonId) x fun _ y => Late 1 y ∧ y.now = b + 1 := by
  refine (run_load ((late_stable 0).and (now_stable (· = b))) hx).bind fun m y hy => ?_
  obtain rfl : m = b := hy.2.symm.trans hy.1.2
  have hm : (m + 1) % 2 ^ 8 = m + 1 := by omega
  refine (run_late_entry (P := (· = m)) (m := m + 1) (d := 1) (by omega) (by decide) (fun b hbm hle _ => ?_)
    ⟨hy.1.1, hy.2⟩).mono fun _ z hz => ⟨hz.1, hz.2.trans hm⟩
  omega

/-- K0 in the main menu; it stores an entry over 3 only from the first entry. -/
theorem run_userMain1Up (hx : Late 0 x ∧ x.now ≤ 4) : index.Run userMain1Up x fun _ y => Late 0 y ∧ y.now ≤ 4 := by
  have hstable := late_upto_stable 0 4
  have hpage : ∀ (m : Nat) (y : Screen), Late 0 y ∧ y.now ≤ 4 →
      index.Run (do store .win1PageID m; store (.firstFlag .w1) 0) y fun _ z => Late 0 z ∧ z.now ≤ 4 := fun m y hy =>
    (run_page hstable late_page m hy).bind fun _ z hz => run_op hstable rfl hz
  have hfour : ∀ y, Late 0 y ∧ y.now ≤ 4 → index.Run (store .nowButtonId 4) y fun _ z => Late 0 z ∧ z.now ≤ 4 := fun y hy =>
    (run_late_entry (P := fun _ => True) (m := 4) (d := 0) (by decide) (by decide) (fun _ _ _ h => absurd h (by decide))
      ⟨hy.1, trivial⟩).mono fun _ z hz => ⟨hz.1, by rw [hz.2]; decide⟩
  refine (run_load hstable hx).bind fun b y hy => ?_
  have hb : b ≤ 4 := hy.2 ▸ hy.1.2
  split
  · exact (hfour y hy.1).bind fun _ z hz => hpage 1 z hz
  · exact (run_late_decr (by decide) ⟨hy.1.1, hy.2⟩).bind fun _ z hz => hpage 2 z hz
  · have hexact : index.Stable fun z => Late 0 z ∧ z.now = b := (late_stable 0).and (now_stable (· = b))
    refine (run_drawNowButton hexact (fun z hz => hz.2 ▸ hb) 0 ⟨hy.1.1, hy.2⟩).bind fun _ z hz => ?_
    refine (run_load hexact hz).bind fun m u hu => ?_
    obtain rfl : m = b := hu.2.symm.trans hu.1.2
    refine Rely.Run.bind (R := fun _ v => Late 0 v ∧ v.now ≤ 4) (Rely.Run.ite (fun hpos => ?_) fun _ => ?_)
      fun _ v hv => run_drawNowButton hstable (fun _ h => h.2) 1 hv
    · exact run_late_decr ⟨hpos, hb⟩ hu.1
    · exact hfour u ⟨hu.1.1, hu.1.2 ▸ hb⟩

/-- K1 in the main menu; from the last entry it goes on to 5 and has the menu drawn again. -/
theorem run_userMain1Down (hx : Late 0 x ∧ x.now ≤ 4) : index.Run userMain1Down x fun _ y => Late 1 y ∧ Sane y := by
  refine (run_load (late_upto_stable 0 4) hx).bind fun b y hy => ?_
  have hb : b ≤ 4 := hy.2 ▸ hy.1.2
  have hexact : ∀ m, index.Stable fun z => Late 0 z ∧ z.now = m := fun m => (late_stable 0).and (now_stable (· = m))
  split
  · refine (run_page (hexact 3) (fun _ _ _ h => ⟨h.1.same rfl rfl rfl, h.2⟩) 1 ⟨hy.1.1, hy.2⟩).bind fun _ z hz => ?_
    refine (run_op (hexact 3) (o := .store (.firstFlag .w1) 0) rfl hz).bind fun _ u hu => ?_
    exact (run_late_incr (by decide) hu).mono fun _ v hv => ⟨hv.1, .inl (Nat.le_of_eq hv.2)⟩
  · refine (run_late_incr (by decide) ⟨hy.1.1, hy.2⟩).bind fun _ z hz => ?_
    have hfive : index.Stable fun z => Late 1 z ∧ z.now = 5 := (late_stable 1).and (now_stable (· = 5))
    have hpage : index.Stable fun z => (Late 1 z ∧ z.now = 5) ∧ z.page = 0 := hfive.and fun _ _ hxy h => hxy.page.trans h
    refine Rely.Run.bind (R := fun _ u => (Late 1 u ∧ u.now = 5) ∧ u.page = 0)
      (Rely.Run.perform hfive hz rfl fun _ _ h _ _ => ⟨⟨h.1.same rfl rfl rfl, h.2⟩, rfl⟩) fun _ u hu => ?_
    refine Rely.Run.perform hpage hu rfl fun v r hv _ _ => ?_
    have hdrift := hpage (drift_after (o := .store (.firstFlag .w1) 0) rfl r v) hv
    exact ⟨hdrift.1.1, .inr ⟨hdrift.1.2, flag_cleared .w1 r v, fun e => absurd (hdrift.2.symm.trans e) (by decide)⟩⟩
  · next h3 h4 =>
    refine (run_drawNowButton (hexact b) (fun z hz => hz.2 ▸ hb) 0 ⟨hy.1.1, hy.2⟩).bind fun _ z hz => ?_
    refine (run_late_incr hb hz).bind fun _ u hu => ?_
    have hle : b + 1 ≤ 4 := by
      have : b ≠ 4 := h4
      omega
    refine (run_drawNowButton (late_upto_stable 1 4) (fun _ h => h.2) 1 ⟨hu.1, hu.2 ▸ hle⟩).mono fun _ v hv => ?_
    exact ⟨hv.1, .inl hv.2⟩

/-- An entry of the main menu opens its window over what is in reach. -/
theorem late_open {v : Win} (h : Late 1 x) (hs : Sane x) (hallow : allowed (.guiWinAdd v) x) (hv : tier v = 3)
    (hlarge : leaves v = 2 ∨ x.now = 4) (r : Unit) : Held 0 (x.after (.guiWinAdd v) r) := by
  have hmain : v ≠ .w1 := fun e => by rw [e] at hv; cases hv
  refine ⟨(h.held hs).deep.push hmain (fun e => by rw [e] at hv; cases hv) (fun i hi hr => ⟨?_, fun u hu hf => ?_⟩) rfl rfl, hs⟩
  · obtain rfl : i = 0 := Nat.le_zero.mp hi
    refine hr.1.cons (by omega) (fun l hl => .inl (hv ▸ Nat.lt_succ_of_le (h.tier_le l hl))) fun l hl hf => ?_
    rcases hlarge with h2 | h4
    · rw [h2]
      exact two_le_limit l
    · have hl4 : 4 ≤ limit l := h4 ▸ hr.2 l hl hf
      exact Nat.le_trans (leaves_le v) (Nat.le_of_lt hl4)
  · rcases List.mem_cons.mp hu with rfl | hu
    · by_cases h7 : u = .w7
      · subst h7
        exact hallow (.inl rfl) hf
      · have h5 : limit u = 5 := by cases u <;> first | rfl | exact absurd rfl h7 | cases hv
        rw [h5]
        exact hs.now_le
    · exact hr.2 u hu hf

theorem run_userMain1Select (hx : Late 1 x ∧ Sane x) : index.Run userMain1Select x fun _ y => Held 0 y := by
  have hsane : index.Stable Sane := fun _ _ hxy h => h.drift hxy
  have hstable : index.Stable fun y => Late 1 y ∧ Sane y := (late_stable 1).and hsane
  refine Rely.Run.bind (R := fun _ y => Late 1 y ∧ Sane y) (Rely.Run.perform hstable hx rfl fun _ _ hy _ _ =>
    ⟨hy.1.same rfl rfl rfl, hy.2.imp_right fun h => ⟨h.1, h.2.1, (by decide : 0 % 2 ^ 8 ≠ 1)⟩⟩) fun _ y hy => ?_
  refine (run_load hstable hy).bind fun b z hz => ?_
  refine Rely.Run.bind (R := fun _ u => Held 0 u) ?_ fun _ u hu => Tame.op rfl u hu
  have hexact : index.Stable fun u => (Late 1 u ∧ Sane u) ∧ u.now = b := hstable.and (now_stable (· = b))
  have hopen : ∀ v, tier v = 3 → (leaves v = 2 ∨ b = 4) → index.Run (guiWinAdd v) z fun _ u => Held 0 u := fun v hv hb =>
    Rely.Run.perform hexact hz rfl fun _ r hu hallow _ =>
      late_open hu.1.1 hu.1.2 hallow hv (hb.imp_right fun e => hu.2.trans e) r
  split
  · exact hopen .w2 rfl (.inl rfl)
  · exact hopen .w4 rfl (.inl rfl)
  · exact hopen .w5 rfl (.inl rfl)
  · exact hopen .w6 rfl (.inl rfl)
  · exact hopen .w7 rfl (.inr rfl)
  · exact hz.1.1.held hz.1.2

/-- Where the main menu displays the settings menu it has opened: that is on top, or the main menu
itself, not drawn. -/
structure Dispatch (x : Screen) : Prop where
  top : Within .w14 1 x ∨ Main x
  suits : x.flag .w14 ≠ 0 → x.now ≤ 3
  undrawn : x.flag .w1 = 0
  now_le : x.now ≤ 4

theorem dispatch_stable : index.Stable Dispatch := fun _ _ hxy hx =>
  ⟨((within_stable _ _).or main_stable) hxy hx.top, fun hf => hxy.now ▸ hx.suits (hxy.drawn hf), hxy.undrawn hx.undrawn,
    hxy.now ▸ hx.now_le⟩

theorem Dispatch.late (h : Dispatch x) : Late 0 x := by
  rcases h.top with ht | ht
  · exact ht.late h.suits
  · exact ht.late 0

theorem dispatch_open (h : Main x) (hn : x.now ≤ 4) (h1 : x.flag .w1 = 0) (hallow : allowed (.guiWinAdd .w14) x) (r : Unit) :
    Dispatch (x.after (.guiWinAdd .w14) r) := by
  refine ⟨?_, hallow (.inr rfl), h1, hn⟩
  by_cases hfull : x.wins.length ≥ guiWinManageNum
  · right
    have hwins : (x.after (.guiWinAdd .w14) r).wins = x.wins := if_pos hfull
    unfold Main
    rw [hwins]
    exact h
  left
  have hwins : (x.after (.guiWinAdd .w14) r).wins = .w14 :: x.wins := if_neg hfull
  have hreach : reach (.w14 :: x.wins) = [.w14] := congrArg (Win.w14 :: ·) h
  have hone : Ordered x.flag [.w14] := (Ordered.nil _).cons (by decide) (by simp) (by simp)
  intro i hi
  rw [hwins]
  have hr : reach (popped i (.w14 :: x.wins)) <:+ [.w14] := by
    rw [← hreach]
    rcases Nat.le_one_iff_eq_zero_or_eq_one.mp hi with rfl | rfl
    · exact List.suffix_refl _
    · exact reach_popped (by decide) x.wins
  exact ⟨hone.suffix hr, Over.of_ordered hone (by decide) hr⟩

theorem quiet_keyStatuses : keyStatuses.All fun o => quiet o = true :=
  built_keyStatuses (All.compositional _) fun _ => All.perform rfl

/-- The main menu, from what the display of the settings menu comes to. -/
theorem run_userMain1WinFun {display : Code Unit}
    (hd : ∀ y, Dispatch y → index.Run display y fun _ z => Late 0 z ∧ z.now ≤ 4) (hx : Main x ∧ Sane x) :
    index.Run (userMain1WinFun display) x fun _ y => Held 0 y := by
  have hupto : ∀ y, Main y ∧ Sane y → Main y ∧ Upto 5 y := fun y hy => ⟨hy.1, hy.2, hy.2.now_le⟩
  have hstable : index.Stable fun y => Main y ∧ y.now ≤ 4 := main_stable.and (now_stable (· ≤ 4))
  refine Rely.Run.bind (R := fun f y => (Main y ∧ Upto 5 y) ∧ f = y.flag .w1)
    (Rely.Run.perform (main_stable.and (upto_stable 5)) (hupto x hx) rfl fun _ _ hy _ hcan => ⟨hy, hcan⟩)
    fun (f : Nat) y hy => ?_
  refine Rely.Run.ite (fun _ => (run_userMain1Draw (by decide) hy.1).mono fun _ z hz => (hz.1.late 0).held hz.2.1) fun hne => ?_
  -- a drawn main menu has one of its entries
  have hnow : y.now ≤ 4 := hy.1.2.1.resolve_right fun h => hne (hy.2.trans h.2.1)
  refine (run_op hstable (o := .guiButton 4) rfl ⟨hy.1.1, hnow⟩).bind fun _ z hz => ?_
  refine (run_quiet hstable quiet_takeKeys hz).bind fun k u hu => ?_
  refine Rely.Run.bind (R := fun _ v => Late 0 v ∧ v.now ≤ 4) (Rely.Run.ite (fun _ => ?_) fun _ => ⟨hu.1.late 0, hu.2⟩)
    fun k v hv => ?_
  · have hclear : index.Stable fun v => (Main v ∧ v.now ≤ 4) ∧ v.flag .w1 = 0 := hstable.and fun _ _ hxy h => hxy.undrawn h
    refine Rely.Run.bind (R := fun _ v => (Main v ∧ v.now ≤ 4) ∧ v.flag .w1 = 0)
      (Rely.Run.perform hstable hu rfl fun v r hv _ _ => ⟨hstable (drift_after rfl r v) hv, flag_cleared .w1 r v⟩)
      fun _ v hv => ?_
    refine Rely.Run.bind (R := fun _ t => Dispatch t) (Rely.Run.perform hclear hv rfl fun t r ht hallow _ =>
      dispatch_open ht.1.1 ht.1.2 ht.2 hallow r) fun _ t ht => ?_
    exact (hd t ht).bind fun _ s hs => run_quiet (late_upto_stable 0 4) quiet_keyStatuses hs
  refine Rely.Run.bind (Rely.Run.when (fun _ => run_userMain1Up hv) fun _ => hv) fun _ t ht => ?_
  refine Rely.Run.bind (R := fun _ s => Late 1 s ∧ Sane s) (Rely.Run.when (fun _ => run_userMain1Down ht) fun _ =>
    ⟨ht.1.mono (by decide), .inl ht.2⟩) fun _ s hs => ?_
  exact Rely.Run.when (fun _ => run_userMain1Select hs) fun _ => hs.1.held hs.2

/-! ### Displays -/

/-- What the main menu displays is the settings menu, or itself to draw. -/
theorem run_nested (depth : Nat) (hx : Dispatch x) :
    index.Run (guiWinDisplay depth) x fun _ y => Late 0 y ∧ y.now ≤ 4 := by
  cases depth with
  | zero => exact ⟨hx.late, hx.now_le⟩
  | succ depth =>
    refine Rely.Run.bind (R := fun top y => Dispatch y ∧ top = y.wins.head?)
      (Rely.Run.perform dispatch_stable hx rfl fun _ _ hy _ hcan => ⟨hy, hcan⟩) fun top y hy => ?_
    cases top with
    | none => exact ⟨hy.1.late, hy.1.now_le⟩
    | some w =>
      obtain ⟨hdispatch, htop⟩ := hy
      by_cases hw : w = .w1
      · subst hw
        obtain ⟨ws, hws⟩ := exists_cons htop.symm
        have hmain : Main y := by
          unfold Main
          rw [hws]
          rfl
        have hstable : index.Stable fun z => (Main z ∧ Upto 4 z) ∧ z.flag .w1 = 0 :=
          (main_stable.and (upto_stable 4)).and fun _ _ hxy h => hxy.undrawn h
        have hy : (Main y ∧ Upto 4 y) ∧ y.flag .w1 = 0 :=
          ⟨⟨hmain, .inl hdispatch.now_le, hdispatch.now_le⟩, hdispatch.undrawn⟩
        refine (run_op hstable (o := .mark (.winFun .w1)) rfl hy).bind fun _ z hz => ?_
        refine Rely.Run.bind (R := fun f u => (Main u ∧ Upto 4 u) ∧ f = 0) (Rely.Run.perform hstable hz rfl
          fun _ _ hu _ hcan => ⟨hu.1, hcan.trans hu.2⟩) fun (f : Nat) u hu => ?_
        exact Rely.Run.ite (fun _ => (run_userMain1Draw (by decide) hu.1).mono fun _ v hv => ⟨hv.1.late 0, hv.2.2⟩)
          fun hne => absurd hu.2 hne
      · obtain ⟨ws, hws⟩ := exists_cons htop.symm
        have hmem : w ∈ reach y.wins := by
          rw [hws, reach_cons hw]
          exact List.mem_cons_self ..
        have hwithin : Within .w14 1 y := hdispatch.top.resolve_right fun (h : reach y.wins = []) => by
          rw [h] at hmem
          cases hmem
        obtain rfl : w = .w14 := hwithin.settings w hmem
        have hstable := (ready_stable .w14 1).and (upto_stable 4)
        refine (run_op hstable (o := .mark (.winFun .w14)) rfl
          ⟨⟨hwithin, hdispatch.suits⟩, .inl hdispatch.now_le, hdispatch.now_le⟩).bind fun _ z hz => ?_
        exact (run_userMain14WinFun (by decide) hz.1 hz.2).mono fun _ u hu => ⟨hu.1, hu.2.2⟩

/-- The window on top runs. -/
theorem run_winFun {display : Code Unit} (hd : Tame 0 0 display)
    (hnested : ∀ y, Dispatch y → index.Run display y fun _ z => Late 0 z ∧ z.now ≤ 4) (hx : Held 0 x)
    (hw : x.wins.head? = some w) : index.Run (do mark (.winFun w); winFun display w) x fun _ y => Held 0 y := by
  have htame : ∀ m, Held m x → Tame m 0 (winFun display w) →
      index.Run (do mark (.winFun w); winFun display w) x fun _ y => Held 0 y := fun m hm hp =>
    (run_op (held_stable m) rfl hm).bind fun _ y hy => hp y hy
  have hready : w ≠ .w1 → tier w ≠ 6 → Ready w 1 x := fun h1 h6 =>
    ⟨hx.within hw h1 h6, fun hf => hx.suits_top hw h1 hf⟩
  have hindex : w ≠ .w1 → tier w ≠ 6 → (∀ y, Ready w 1 y → index.Run (winFun display w) y fun _ z => Held 0 z) →
      index.Run (do mark (.winFun w); winFun display w) x fun _ y => Held 0 y := fun h1 h6 hp =>
    (run_op (ready_stable w 1) rfl (hready h1 h6)).bind fun _ y hy => hp y hy
  cases w
  case w1 =>
    obtain ⟨ws, hws⟩ := exists_cons hw
    have hmain : Main x := by
      unfold Main
      rw [hws]
      rfl
    have hstable : index.Stable fun y => Main y ∧ Sane y := main_stable.and fun _ _ hxy h => h.drift hxy
    exact (run_op hstable rfl ⟨hmain, hx.sane⟩).bind fun _ y hy => run_userMain1WinFun hnested hy
  case w2 => exact htame 1 (hx.enter hw (by decide)) tame_userMain2WinFun
  case w3 => exact htame 1 (hx.enter hw (by decide)) tame_userMain3WinFun
  case w4 => exact htame 1 (hx.enter hw (by decide)) (tame_scheduleWinFun hd .reminder)
  case w5 => exact htame 1 (hx.enter hw (by decide)) (tame_scheduleWinFun hd .automatic)
  case w6 => exact htame 1 (hx.enter hw (by decide)) (tame_userMain6WinFun hd)
  case w7 => exact hindex (by decide) (by decide) fun _ => run_userMain7WinFun hd
  case w8 => exact hindex (by decide) (by decide) fun _ => run_userMain8WinFun
  case w9 => exact hindex (by decide) (by decide) fun _ => run_counterWinFun rfl rfl
  case w10 => exact hindex (by decide) (by decide) fun _ => run_counterWinFun rfl rfl
  case w11 => exact hindex (by decide) (by decide) fun _ => run_counterWinFun rfl rfl
  case w12 => exact hindex (by decide) (by decide) fun _ => run_counterWinFun rfl rfl
  case w13 => exact htame 1 (hx.enter hw (by decide)) (tame_infoWinFun hd (by decide) (by decide))
  case w14 =>
    have hstable := (ready_stable .w14 1).and (upto_stable 5)
    refine (run_op hstable rfl ⟨hready (by decide) (by decide), hx.sane, hx.sane.now_le⟩).bind fun _ y hy => ?_
    exact (run_userMain14WinFun (by decide) hy.1 hy.2).mono fun _ z hz => hz.1.held hz.2.1
  case w15 => exact htame 1 (hx.enter hw (by decide)) (tame_userMain15WinFun hd)
  case w16 => exact htame 1 (hx.enter hw (by decide)) (tame_userMain16WinFun hd)
  case w17 => exact htame 1 (hx.enter hw (by decide)) (tame_userMain17WinFun hd)
  case w18 => exact htame 1 (hx.enter hw (by decide)) (tame_infoWinFun hd (by decide) (by decide))
  case w19 => exact htame 1 (hx.enter hw (by decide)) (tame_userMain19WinFun hd)
  case w20 => exact hindex (by decide) (by decide) fun _ => run_userMain20WinFun
  case w21 =>
    have hstable := (held_stable 1).and (within_stable .w21 1)
    refine (run_op hstable rfl ⟨hx.enter hw (by decide), hx.within hw (by decide) (by decide)⟩).bind fun _ y hy => ?_
    exact run_userMain21WinFun hy
  case w22 => exact absurd (hx.tier_pos hw (by decide)) (by decide)
  case w23 => exact htame 2 (hx.enter_two hw) tame_userMain23WinFun
  case w24 => exact absurd (hx.tier_pos hw (by decide)) (by decide)
  case w25 => exact htame 1 (hx.enter hw (by decide)) (tame_userMain25WinFun hd)
  case w26 => exact htame 1 (hx.enter hw (by decide)) (tame_alertWinFun (by decide))
  case w27 => exact htame 1 (hx.enter hw (by decide)) (tame_alertWinFun (by decide))

end

theorem tame_guiWinDisplay (depth : Nat) : Tame 0 0 (guiWinDisplay depth) := by
  induction depth with
  | zero => exact Tame.pure () (Nat.le_refl 0)
  | succ depth ih =>
    intro x hx
    refine Rely.Run.bind (R := fun top y => Held 0 y ∧ top = y.wins.head?)
      (Rely.Run.perform (held_stable 0) hx rfl fun _ _ hy _ hcan => ⟨hy, hcan⟩) fun top y hy => ?_
    cases top with
    | none => exact hy.1
    | some w => exact run_winFun ih (fun _ => run_nested depth) hy.1 hy.2.symm

/-! ### Every run -/

theorem easy_of_taskMay {o : Op} (h : taskMay o = true) : easy o = true := by
  cases o with
  | store v n =>
    cases v with
    | firstFlag w =>
      have hn : n = 0 := by
        have := (Bool.and_eq_true_iff.mp h).1
        simpa using this
      subst hn
      rfl
    | _ => first | rfl | cases h
  | guiWinAdd w => cases w <;> first | rfl | cases h
  | _ => first | rfl | cases h

theorem easy_of_openMay {o : Op} (h : openMay o = true) : easy o = true := by
  cases o with
  | store v n => cases v <;> first | rfl | cases h
  | _ => first | rfl | cases h

theorem tame_lcdTaskEntry (depth : Nat) : Tame 0 0 (lcdTaskEntry depth) :=
  built_lcdTaskEntry (Tame.compositional 0) (tame_guiWinDisplay depth)
    (built_openLcdDisplay (Tame.compositional 0) fun _ ho => Tame.op (easy_of_openMay ho)) (Tame.all easy_motoCycle)
    fun _ ho => Tame.op (easy_of_taskMay ho)

def guest (depth : Nat) : Guest (board passCalls depth) Screen where
  toRely := index
  thread := .lcd
  may := fun t o => may t o = true
  Rule := IndexRule
  view := screen
  Rest := Held 0
  body_may := fun {t c s} hready => by
    obtain rfl : t = c.thread := by simp [board] at hready; exact hready.1.1
    exact body_may depth c
  own := fun _ => ⟨screen_can, screen_exec⟩
  rule := allowed_of_rule
  other := fun {t o i s} ht hmay => by
    rw [show (board passCalls depth).exec = exec from rfl, screen_exec]
    exact drift_after (drifts_other ht hmay) _ _
  enter := fun c s => by
    rw [show (board passCalls depth).enter = enter from rfl, screen_enter]
    exact Drift.refl _

/-- The display thread keeps within the button array, in every run that keeps to the rule. -/
theorem index_in_array (depth : Nat) (flash : Nat → Nat) (as : List Act)
    (h : (board passCalls depth).Admits IndexRule (start flash) as) :
    InArray ((board passCalls depth).run (start flash) as) := by
  intro o i hhead hi
  -- what the thread does next it has done a step later
  have hrule : IndexRule ((board passCalls depth).run (start flash) as) (.step .lcd {}) := fun _ => by
    rw [hhead]
    cases o <;> first | rfl | cases hi
  have hadmits : (board passCalls depth).Admits IndexRule (start flash) (as ++ [.step .lcd {}]) :=
    System.admits_append.mpr ⟨h, hrule, trivial⟩
  have hdid : .did .lcd o {} ∈ ((board passCalls depth).run (start flash) (as ++ [.step .lcd {}])).trace := by
    rw [System.run_concat, (System.next_head hhead {}).2]
    exact List.mem_cons_self ..
  have hrest : Held 0 (screen (boot flash)) := by
    rw [screen_boot]
    exact (Main.late (x := .blank) rfl 0).held (.inl (by decide))
  have hfine : inArray o = true := Guest.run_fine (N := guest depth) (fun c s x hready hx => by
    obtain rfl : c = .lcdTask := by
      cases c <;> first | rfl | cases hready
    exact tame_lcdTaskEntry depth x hx) hrest hadmits hdid
  cases o with
  | setButton j n =>
    obtain rfl : j = i := Option.some.inj hi
    exact of_decide_eq_true hfine
  | guiButton j =>
    obtain rfl : j = i := Option.some.inj hi
    exact of_decide_eq_true hfine
  | _ => cases hi

/-- A long press opens the settings, where K1 goes two entries on. -/
def settingsByLongPress : List Act :=
  lcdPass ++ holdK2 ++ lcdPass ++ lcdPass ++ press .k1 ++ lcdPass ++ press .k1 ++ .start .lcd .lcdTask :: turns .lcd {} 14

theorem index_in_array_settings :
    (board passCalls 2).Admits IndexRule (start fun _ => 0) settingsByLongPress ∧
    InArray ((board passCalls 2).run (start fun _ => 0) settingsByLongPress) :=
  ⟨by decide +kernel, index_in_array 2 (fun _ => 0) settingsByLongPress (by decide +kernel)⟩

/-- One pass of the main menu finds a long press and K0: the settings are opened, and drawn,
before K0 goes from the first entry to the last. K1 in the settings leaves the array. -/
def longPressWithK0 : List Act :=
  lcdPass ++ holdK2 ++ press .k0 ++ lcdPass ++ press .k1 ++ .start .lcd .lcdTask :: turns .lcd {} 14

theorem not_inArray_longPress : ¬ InArray ((board passCalls 2).run (start fun _ => 0) longPressWithK0) := fun h =>
  absurd (h (.setButton 5 1) 5 (by decide +kernel) rfl) (by decide)

end Backwash.Lcd.Index
