import Backwash.Settings.Desk

/-! The two numbers that are dialled.

Windows 16 and 17 edit the hardness limit and the backwash time: a copy of the number is
counted up with K1 and down with K0, formatted into a text after each, and saved with K2 in
RAM and in the store. A number, its copy, its entry and its text belong to the display
thread; a `Dial` is what that thread knows of them. -/
namespace Backwash.Settings
open Concurrent Prog Firmware

inductive Number where
  | hardness | backwash
  deriving DecidableEq, Repr

namespace Number

def setting : Number → Var
  | .hardness => .settingHardness
  | .backwash => .settingBackwashtime

def temp : Number → Var
  | .hardness => .setHardnessTemp
  | .backwash => .setBackwashTemp

def text : Number → Text
  | .hardness => .hardnessString
  | .backwash => .backwashString

/-- The entry of the store, as an index into `Key_list`. -/
def entry : Number → Nat
  | .hardness => 13
  | .backwash => 14

def win : Number → Win
  | .hardness => .w16
  | .backwash => .w17

/-- What the copy starts with, when the setting is `n`. -/
def first : Number → Nat → Nat
  | .hardness, _ => 100
  | .backwash, n => n

/-- What K0 makes of the copy. -/
def down : Number → Nat → Nat
  | .hardness, n => if n > 100 then n - 10 else n
  | .backwash, n => if n > 30 then n - 1 else n

/-- What K1 makes of the copy. -/
def up : Number → Nat → Nat
  | .hardness, n => n + 10
  | .backwash, n => if n < 100 then n + 1 else n

end Number

/-- The values a number may have, and those its entry may have: whatever is saved, and 0
once the store has been cleared. -/
structure Range where
  value : Nat → Prop
  entry : Nat → Prop
  saved : ∀ n, value n → entry n
  cleared : entry 0

/-! ### What has been drawn and saved -/

/-- The window of the number draws itself. -/
def redraws (N : Number) : Op → Bool
  | .store v n => v == .firstFlag N.win && n == 1
  | _ => false

/-- The number that is formatted into the text. -/
def formats (N : Number) : Op → Option Nat
  | .sprintf x n => if x = N.text then some n else none
  | _ => none

/-- How often the text was formatted since the window was drawn, the drawing included. -/
def formatted (N : Number) : Trace → Nat
  | [] => 0
  | .began _ _ :: tr => formatted N tr
  | .did _ o _ :: tr => if redraws N o then 0 else if (formats N o).isSome then formatted N tr + 1 else formatted N tr

/-- The number the window was drawn with. -/
def drawnWith (N : Number) : Trace → Option Nat
  | [] => none
  | .began _ _ :: tr => drawnWith N tr
  | .did _ o _ :: tr => if (formats N o).isSome ∧ formatted N tr = 0 then formats N o else drawnWith N tr

/-- K0 or K1 has formatted the text again since the window was drawn, or what it was drawn
with is what the copy started with. -/
def Shows (N : Number) (tr : Trace) : Prop := N = .backwash ∨ 2 ≤ formatted N tr ∨ drawnWith N tr = some 100

/-- If the last operation saved the number, in RAM or in its entry, the text shows what was
saved if and only if `Shows` says so. -/
def SavesShown (N : Number) (s : Device) : Trace → Prop
  | .did _ (.store v _) _ :: tr => v = N.setting → (s.text N.text = some (s.vars N.setting) ↔ Shows N tr)
  | .did _ (.efSet id _) _ :: tr => id = N.entry → openWindow tr = some N.win →
      (s.text N.text = some (s.flash N.entry) ↔ Shows N tr)
  | _ => True

/-! ### The dial -/

structure Dial where
  setting : Nat
  temp : Nat
  entry : Nat
  text : Option Nat
  drawn : Bool
  count : Nat
  initial : Option Nat
  win : Option Win
  fault : Bool

namespace Dial

def shows (N : Number) (x : Dial) : Bool := N == .backwash || decide (2 ≤ x.count) || x.initial == some 100

def after (N : Number) : (o : Op) → Res o → Dial → Dial
  | .store v n, _, x =>
    if v = N.setting then
      {x with setting := n % 2 ^ v.width, fault := x.fault || (x.text == some (n % 2 ^ v.width)) != x.shows N}
    else if v = N.temp then {x with temp := n % 2 ^ 16}
    else if v = .firstFlag N.win then
      {x with drawn := n % 2 ^ 8 != 0, count := if n = 1 then 0 else x.count}
    else x
  | .efSet id n, _, x =>
    if id = N.entry then
      {x with entry := n % 2 ^ 32
              fault := x.fault || (x.win == some N.win && (x.text == some (n % 2 ^ 32)) != x.shows N)}
    else x
  | .sprintf t n, _, x =>
    if t = N.text then
      {x with text := some n, count := x.count + 1
              initial := if x.count = 0 then some n else x.initial}
    else x
  | .memsetFirstFlag, _, x => {x with drawn := false}
  | .mark m, _, x => match m with
    | .winFun w => {x with win := some w}
    | _ => x
  | _, _, x => x

def can (N : Number) : (o : Op) → Dial → Res o → Prop
  | .load v, x, r => (v = N.setting → r = x.setting ∧ r < 2 ^ N.setting.width) ∧ (v = N.temp → r = x.temp ∧ r < 2 ^ 16) ∧
      (v = .firstFlag N.win → r ≠ 0 → x.drawn = true)
  | _, _, _ => True

structure Sees (N : Number) (x : Dial) (s : Device) (tr : Trace) : Prop where
  setting : s.vars N.setting = x.setting
  settingFits : x.setting < 2 ^ N.setting.width
  temp : s.vars N.temp = x.temp
  tempFits : x.temp < 2 ^ 16
  entry : s.flash N.entry = x.entry
  text : s.text N.text = x.text
  drawn : s.vars (.firstFlag N.win) ≠ 0 → x.drawn = true
  count : formatted N tr = x.count
  initial : drawnWith N tr = x.initial
  win : openWindow tr = x.win
  shown : x.fault = false → SavesShown N s tr

/-- The operation leaves the dial as it is. -/
def aside (N : Number) : Op → Bool
  | .store v _ => v != N.setting && v != N.temp && v != .firstFlag N.win
  | .efSet id _ => id != N.entry
  | .sprintf x _ => x != N.text
  | .memsetFirstFlag => false
  | .mark m => match m with
    | .winFun _ => false
    | _ => true
  | _ => true

section
variable {N : Number} {t : Thread} {o : Op} {i : Input} {s : Device} {tr : Trace} {x : Dial}

theorem after_aside (h : aside N o = true) (r : Res o) (x : Dial) : x.after N o r = x := by
  cases o with
  | store v n =>
    simp only [aside, Bool.and_eq_true, bne_iff_ne, ne_eq] at h
    simp [after, h]
  | efSet id n => simp only [aside, bne_iff_ne, ne_eq] at h; simp [after, h]
  | sprintf y n => simp only [aside, bne_iff_ne, ne_eq] at h; simp [after, h]
  | mark m => cases m <;> first | rfl | cases h
  | memsetFirstFlag => cases h
  | _ => rfl

/-- What another thread does: it may clear the flags of the windows. -/
theorem aside_other (ht : t ≠ .lcd) (hmay : may t o = true) : aside N o = true ∨ o = .memsetFirstFlag := by
  cases o with
  | store v n =>
    left
    have hne : v ≠ N.setting ∧ v ≠ N.temp ∧ v ≠ .firstFlag N.win := by
      refine ⟨?_, ?_, ?_⟩
      all_goals
        rintro rfl
        cases N <;> (cases t <;> first | exact absurd rfl ht | cases hmay)
    simpa [aside] using ⟨⟨hne.1, hne.2.1⟩, hne.2.2⟩
  | efSet id n =>
    left
    have hid : id = 9 ∨ id = 11 ∨ id = 16 ∨ id = 17 := by
      cases t <;> first
        | exact absurd rfl ht
        | (simp only [may, timerMay, rtcCheckMay, motorMay, Bool.or_eq_true, beq_iff_eq] at hmay; omega)
        | cases hmay
    rcases hid with rfl | rfl | rfl | rfl <;> cases N <;> rfl
  | sprintf y n => cases t <;> first | exact absurd rfl ht | cases hmay
  | mark m =>
    cases m with
    | winFun w => cases t <;> first | exact absurd rfl ht | cases hmay
    | _ => exact .inl rfl
  | memsetFirstFlag => exact .inr rfl
  | _ => exact .inl rfl

theorem shows_iff : x.shows N = true ↔ N = .backwash ∨ 2 ≤ x.count ∨ x.initial = some 100 := by
  simp [shows, or_assoc]

theorem Sees.shows_iff (h : Sees N x s tr) : Shows N tr ↔ x.shows N = true := by
  rw [Dial.shows_iff, Shows, h.count, h.initial]

variable (t i tr) in
/-- What stays as it was with an operation that neither draws nor formats nor enters a window. -/
theorem formatted_did (hr : redraws N o = false) (hf : formats N o = none) :
    formatted N (.did t o i :: tr) = formatted N tr ∧ drawnWith N (.did t o i :: tr) = drawnWith N tr := by
  simp [formatted, drawnWith, hr, hf]

theorem redraws_aside (h : aside N o = true) : redraws N o = false := by
  cases o with
  | store v n =>
    simp only [aside, Bool.and_eq_true, bne_iff_ne, ne_eq] at h
    simp [redraws, h.2]
  | _ => rfl

theorem formats_aside (h : aside N o = true) : formats N o = none := by
  cases o with
  | sprintf y n =>
    simp only [aside, bne_iff_ne, ne_eq] at h
    exact if_neg h
  | _ => rfl

theorem openWindow_did (h : ∀ w, o ≠ .mark (.winFun w)) : openWindow (.did t o i :: tr) = openWindow tr := by
  cases o with
  | mark m => cases m <;> first | rfl | exact absurd rfl (h _)
  | _ => rfl

theorem exec_text {y : Text} (h : ∀ n, o ≠ .sprintf y n) : (exec t o i s).1.text y = s.text y := by
  cases o with
  | sprintf z n =>
    have hy : y ≠ z := fun e => h n (by rw [e])
    simp [exec, hy]
  | stop2 => simp only [exec]; split <;> rfl
  | _ => rfl

theorem setting_ne_temp : N.setting ≠ N.temp := by cases N <;> decide

/-- An operation that concerns none of it, by any thread. -/
theorem Sees.aside (h : Sees N x s tr) (ho : Dial.aside N o = true) : Sees N x (exec t o i s).1 (.did t o i :: tr) := by
  have hvars : ∀ v, v = N.setting ∨ v = N.temp → (exec t o i s).1.vars v = s.vars v := by
    intro v hv
    refine exec_vars (fun n e => ?_) (fun w e => ?_) (fun e => ?_) i
    · subst e
      rcases hv with rfl | rfl <;> simp [Dial.aside] at ho
    · rcases hv with rfl | rfl <;> cases N <;> cases e
    · rcases hv with rfl | rfl <;> cases N <;> cases e
  have hflag : (exec t o i s).1.vars (.firstFlag N.win) = s.vars (.firstFlag N.win) := by
    cases o with
    | store v n =>
      have hv : Var.firstFlag N.win ≠ v := fun e => by subst e; simp [Dial.aside] at ho
      simp [exec, Device.store, hv]
    | memsetFirstFlag => cases ho
    | stop2 => simp only [exec]; split <;> simp [Device.store]
    | _ => rfl
  have hentry : (exec t o i s).1.flash N.entry = s.flash N.entry := by
    refine exec_flash (fun n e => ?_) i
    subst e
    simp [Dial.aside] at ho
  have htext : (exec t o i s).1.text N.text = s.text N.text := by
    refine exec_text fun n e => ?_
    subst e
    simp [Dial.aside] at ho
  have hwin : openWindow (.did t o i :: tr) = openWindow tr := by
    refine openWindow_did fun w e => ?_
    subst e
    cases ho
  obtain ⟨hcount, hinitial⟩ := formatted_did t i tr (redraws_aside ho) (formats_aside ho)
  refine ⟨(hvars _ (.inl rfl)).trans h.setting, h.settingFits, (hvars _ (.inr rfl)).trans h.temp, h.tempFits,
    hentry.trans h.entry, htext.trans h.text, fun e => h.drawn (hflag ▸ e), hcount.trans h.count, hinitial.trans h.initial,
    hwin.trans h.win, fun _ => ?_⟩
  cases o with
  | store v n =>
    rintro rfl
    simp [Dial.aside] at ho
  | efSet id n =>
    rintro rfl
    simp [Dial.aside] at ho
  | _ => exact trivial

/-- The flags of all windows are cleared. -/
theorem Sees.memset (h : Sees N x s tr) (b : Bool) :
    Sees N {x with drawn := b} (exec t .memsetFirstFlag i s).1 (.did t .memsetFirstFlag i :: tr) := by
  have hvars : ∀ v, v = N.setting ∨ v = N.temp → (exec t .memsetFirstFlag i s).1.vars v = s.vars v := by
    rintro v (rfl | rfl) <;> cases N <;> rfl
  have hflag : (exec t .memsetFirstFlag i s).1.vars (.firstFlag N.win) = 0 := by cases N <;> rfl
  exact ⟨(hvars _ (.inl rfl)).trans h.setting, h.settingFits, (hvars _ (.inr rfl)).trans h.temp, h.tempFits, h.entry,
    h.text, fun e => absurd hflag e, h.count, h.initial, h.win, fun _ => trivial⟩

theorem Sees.began (h : Sees N x s tr) (c : Call) : Sees N x (enter c s) (.began t c :: tr) := by
  have hvars : ∀ v, v = N.setting ∨ v = N.temp ∨ v = .firstFlag N.win → (enter c s).vars v = s.vars v := fun v hv =>
    enter_vars (fun k e => by subst e; rcases hv with e | e | e <;> cases N <;> cases e)
      (fun e => by subst e; rcases hv with e | e | e <;> cases N <;> cases e) c s
  have htext : (enter c s).text = s.text := by
    refine enter_keep (f := Device.text) (fun _ _ _ => rfl) (fun _ _ => rfl) (fun _ _ => rfl) (fun o s ho => ?_) s
    rcases irq_cases ho with ⟨_, rfl⟩ | ⟨_, rfl⟩ | ⟨_, _, rfl⟩ | ⟨_, rfl⟩ | rfl <;> rfl
  refine ⟨(hvars _ (.inl rfl)).trans h.setting, h.settingFits, (hvars _ (.inr (.inl rfl))).trans h.temp, h.tempFits, ?_, ?_,
    fun e => h.drawn (hvars _ (.inr (.inr rfl)) ▸ e), h.count, h.initial, h.win, fun _ => trivial⟩
  · rw [enter_flash]
    exact h.entry
  · rw [htext]
    exact h.text

/-! ### What the display thread does to the dial -/

theorem after_setting (n : Nat) (x : Dial) : x.after N (.store N.setting n) () =
    {x with setting := n % 2 ^ N.setting.width
            fault := x.fault || (x.text == some (n % 2 ^ N.setting.width)) != x.shows N} := if_pos rfl

theorem after_temp (n : Nat) (x : Dial) : x.after N (.store N.temp n) () = {x with temp := n % 2 ^ 16} := by
  simp [after, setting_ne_temp.symm]

theorem after_flag (n : Nat) (x : Dial) : x.after N (.store (.firstFlag N.win) n) () =
    {x with drawn := n % 2 ^ 8 != 0, count := if n = 1 then 0 else x.count} := by
  have hs : Var.firstFlag N.win ≠ N.setting := by cases N <;> decide
  have ht : Var.firstFlag N.win ≠ N.temp := by cases N <;> decide
  simp [after, hs, ht]

theorem after_entry (n : Nat) (x : Dial) : x.after N (.efSet N.entry n) () =
    {x with entry := n % 2 ^ 32
            fault := x.fault || (x.win == some N.win && (x.text == some (n % 2 ^ 32)) != x.shows N)} := if_pos rfl

theorem after_text (n : Nat) (x : Dial) : x.after N (.sprintf N.text n) () =
    {x with text := some n, count := x.count + 1, initial := if x.count = 0 then some n else x.initial} := if_pos rfl

/-- The text shows the number exactly when the dial says so. -/
theorem shown_iff {n : Nat} {y : Option Nat} (h : Sees N x s tr) (ht : y = x.text)
    (hf : ((x.text == some n) != x.shows N) = false) : y = some n ↔ Shows N tr := by
  have heq : (x.text == some n) = x.shows N := by simpa using hf
  rw [ht, h.shows_iff, ← heq]
  simp

theorem Sees.setting_stored (h : Sees N x s tr) (n : Nat) :
    Sees N (x.after N (.store N.setting n) ()) (s.store N.setting n) (.did .lcd (.store N.setting n) i :: tr) := by
  rw [after_setting]
  have hredraws : redraws N (.store N.setting n) = false := by cases N <;> rfl
  have hflag : (s.store N.setting n).vars (.firstFlag N.win) = s.vars (.firstFlag N.win) := by
    cases N <;> simp [Device.store, Number.setting]
  obtain ⟨hcount, hinitial⟩ := formatted_did .lcd i tr hredraws rfl
  refine ⟨by simp [Device.store], Nat.mod_lt _ (Nat.two_pow_pos _), ?_, h.tempFits, h.entry, h.text,
    fun e => h.drawn (hflag ▸ e), hcount.trans h.count, hinitial.trans h.initial, h.win, fun hf _ => ?_⟩
  · simpa [Device.store, setting_ne_temp.symm] using h.temp
  · have hself : (s.store N.setting n).vars N.setting = n % 2 ^ N.setting.width := by simp [Device.store]
    rw [hself]
    exact shown_iff h h.text (Bool.or_eq_false_iff.mp hf).2

theorem Sees.temp_stored (h : Sees N x s tr) (n : Nat) :
    Sees N (x.after N (.store N.temp n) ()) (s.store N.temp n) (.did .lcd (.store N.temp n) i :: tr) := by
  rw [after_temp]
  have hwidth : N.temp.width = 16 := by cases N <;> rfl
  have hredraws : redraws N (.store N.temp n) = false := by cases N <;> rfl
  have hflag : (s.store N.temp n).vars (.firstFlag N.win) = s.vars (.firstFlag N.win) := by
    cases N <;> simp [Device.store, Number.temp]
  obtain ⟨hcount, hinitial⟩ := formatted_did .lcd i tr hredraws rfl
  refine ⟨?_, h.settingFits, by simp [Device.store, hwidth], Nat.mod_lt _ (by decide), h.entry, h.text,
    fun e => h.drawn (hflag ▸ e), hcount.trans h.count, hinitial.trans h.initial, h.win, fun _ e => ?_⟩
  · simpa [Device.store, setting_ne_temp] using h.setting
  · exact absurd e.symm setting_ne_temp

theorem Sees.flag_stored (h : Sees N x s tr) (n : Nat) :
    Sees N (x.after N (.store (.firstFlag N.win) n) ()) (s.store (.firstFlag N.win) n)
      (.did .lcd (.store (.firstFlag N.win) n) i :: tr) := by
  rw [after_flag]
  have hs : N.setting ≠ .firstFlag N.win := by cases N <;> decide
  have ht : N.temp ≠ .firstFlag N.win := by cases N <;> decide
  refine ⟨by simpa [Device.store, hs] using h.setting, h.settingFits, by simpa [Device.store, ht] using h.temp, h.tempFits,
    h.entry, h.text, fun e => ?_, ?_, ?_, h.win, fun _ e => absurd e.symm hs⟩
  · simpa [Device.store, Var.width] using e
  · by_cases hn : n = 1
    · subst hn
      simp [Settings.formatted, redraws]
    · simp [Settings.formatted, redraws, formats, hn, h.count]
  · simpa [drawnWith, formats] using h.initial

theorem Sees.entry_stored (h : Sees N x s tr) (n : Nat) :
    Sees N (x.after N (.efSet N.entry n) ()) (exec .lcd (.efSet N.entry n) i s).1 (.did .lcd (.efSet N.entry n) i :: tr) := by
  rw [after_entry]
  obtain ⟨hcount, hinitial⟩ := formatted_did (N := N) (o := .efSet N.entry n) .lcd i tr rfl rfl
  refine ⟨h.setting, h.settingFits, h.temp, h.tempFits, by simp [exec], h.text, h.drawn, hcount.trans h.count,
    hinitial.trans h.initial, h.win, fun hf _ hwin => ?_⟩
  have hself : (exec .lcd (.efSet N.entry n) i s).1.flash N.entry = n % 2 ^ 32 := by simp [exec]
  have hx : x.win = some N.win := h.win.symm.trans hwin
  rw [hself]
  refine shown_iff h h.text ?_
  simpa [hx] using (Bool.or_eq_false_iff.mp hf).2

theorem Sees.text_stored (h : Sees N x s tr) (n : Nat) :
    Sees N (x.after N (.sprintf N.text n) ()) (exec .lcd (.sprintf N.text n) i s).1 (.did .lcd (.sprintf N.text n) i :: tr) := by
  rw [after_text]
  refine ⟨h.setting, h.settingFits, h.temp, h.tempFits, h.entry, by simp [exec], h.drawn, ?_, ?_, h.win, fun _ => trivial⟩
  · simp [Settings.formatted, redraws, formats, h.count]
  · simp [drawnWith, formats, h.count, h.initial]

theorem Sees.own (h : Sees N x s tr) :
    Sees N (x.after N o (exec .lcd o i s).2) (exec .lcd o i s).1 (.did .lcd o i :: tr) := by
  by_cases ho : Dial.aside N o = true
  · rw [after_aside ho]
    exact h.aside ho
  cases o with
  | store v n =>
    have hv : v = N.setting ∨ v = N.temp ∨ v = .firstFlag N.win := by
      by_contra hne
      simp only [not_or] at hne
      exact ho (by simp [Dial.aside, hne])
    rcases hv with rfl | rfl | rfl
    · exact h.setting_stored n
    · exact h.temp_stored n
    · exact h.flag_stored n
  | efSet id n =>
    obtain rfl : id = N.entry := by simpa [Dial.aside] using ho
    exact h.entry_stored n
  | sprintf y n =>
    obtain rfl : y = N.text := by simpa [Dial.aside] using ho
    exact h.text_stored n
  | memsetFirstFlag => exact h.memset false
  | mark m =>
    cases m with
    | winFun w => exact ⟨h.setting, h.settingFits, h.temp, h.tempFits, h.entry, h.text, h.drawn, h.count,
        h.initial, rfl, fun _ => trivial⟩
    | _ => exact absurd rfl ho
  | _ => exact absurd rfl ho

theorem Sees.can (h : Sees N x s tr) : x.can N o (exec .lcd o i s).2 := by
  cases o with
  | load v =>
    refine ⟨?_, ?_, ?_⟩
    · rintro rfl
      exact ⟨h.setting, Nat.lt_of_le_of_lt (Nat.le_of_eq h.setting) h.settingFits⟩
    · rintro rfl
      exact ⟨h.temp, Nat.lt_of_le_of_lt (Nat.le_of_eq h.temp) h.tempFits⟩
    · rintro rfl
      exact h.drawn
  | _ => exact trivial

end

/-! ### What a pass leaves -/

/-- A copy that is being edited: as it was drawn, or as it was formatted last. -/
structure Edited (N : Number) (x : Dial) : Prop where
  once : 1 ≤ x.count
  drawn : x.count = 1 → ∃ n, x.initial = some n ∧ x.text = some n ∧ n < 2 ^ N.setting.width ∧ x.temp = N.first n % 2 ^ 16
  changed : 2 ≤ x.count → x.text = some x.temp

/-- Number and entry are in range. -/
structure Safe (I : Range) (x : Dial) : Prop where
  setting : I.value x.setting
  entry : I.entry x.entry
  clear : x.fault = false

/-- So is the copy, once the window is drawn. -/
structure Sound (N : Number) (I : Range) (x : Dial) : Prop extends Safe I x where
  temp : x.drawn = true → I.value x.temp ∧ Edited N x

end Dial

/-- The range is kept by the keys, where the rule `A` admits the operation. -/
structure Kept (N : Number) (I : Range) (A : Op → Nat → Prop) : Prop where
  first : ∀ n, I.value n → I.value (N.first n % 2 ^ 16)
  down : ∀ n, I.value n → I.value (N.down n % 2 ^ 16)
  up : ∀ n, I.value n → A (.store N.temp (N.up n)) n → I.value (N.up n % 2 ^ 16)

/-- What the display thread does next is admitted with the copy it finds. -/
def CopyRule (N : Number) (A : Op → Nat → Prop) (cfg : Conf) : Act → Prop
  | .step t _ => t = .lcd → ∀ o, cfg.head t = some o → A o (cfg.state.vars N.temp)
  | .start _ _ => True

/-- The display thread and one number. -/
def dial (N : Number) (I : Range) (A : Op → Nat → Prop) (allowed : Call → Bool) (depth : Nat) :
    Owner (board allowed depth) Dial where
  can := fun o x r => Dial.can N o x r ∧ A o x.temp
  after := Dial.after N
  Safe := Dial.Safe I
  thread := .lcd
  may := fun t o => may t o = true
  Rule := CopyRule N A
  Sees := Dial.Sees N
  Rest := Dial.Sound N I
  first := fun _ x => x
  body_may := @ready_may allowed depth
  own := fun _ hhead hr hsees => ⟨⟨hsees.can, hsees.temp ▸ hr rfl _ hhead⟩, hsees.own⟩
  other := fun {_ _ _ _ _} ht hmay _ _ hsees => by
    rcases Dial.aside_other ht hmay with ho | rfl
    · exact hsees.aside ho
    · exact hsees.memset _
  begins := fun _ _ _ hsafe hsees => ⟨hsafe, hsees.began _⟩
  begins_other := fun _ _ _ hsees => hsees.began _

end Backwash.Settings
