import Backwash.Firmware.Obligations
import Backwash.Text.Decimal

/-! The texts of the windows and the arrays they are written to.

`sprintf` writes the characters and the terminating zero, whatever the size of the array. A
window formats what it has just loaded, so the value is one the variable can have by its type. -/
namespace Backwash.Firmware
open Concurrent Prog

/-! ### Formats and sizes -/

def Text.format : Text → List Char
  | .weekstring => "Weeks:%02d".toList
  | .daystring => "Days:%02d".toList
  | .manualString => "Manual:%04d".toList
  | .automaticString => "Automatic:%04d".toList
  | .deltaString => "Delta Pressure:%02d".toList
  | .errorString => "Error:%04d".toList
  | .hardnessString => "Hardness:%04duS".toList
  | .backwashString => "Time:%02dS".toList
  | .tdsPasswordString => "%02d".toList
  | .currentTds23 => "%05dus/cm".toList
  | .currentTds24 => "%05d".toList

/-- The declared size; `weekstring` and `daystring` have that of their initial value. -/
def Text.size : Text → Nat
  | .weekstring | .daystring => 3
  | .manualString => 20
  | .automaticString | .deltaString | .errorString | .hardnessString | .backwashString => 15
  | .tdsPasswordString => 4
  | .currentTds23 | .currentTds24 => 10

/-- The width of the variables that a text shows. -/
def Text.width : Text → Nat
  | .weekstring | .daystring | .tdsPasswordString => 8
  | .manualString | .automaticString | .deltaString | .errorString | .backwashString | .currentTds24 => 16
  | .hardnessString | .currentTds23 => 32

/-- What `sprintf` writes to the array; `%d` takes the value for a signed one. -/
def Text.written (x : Text) (n : Nat) : List Char := Text.sprintf x.format (BitVec.ofNat 32 n).toInt ++ ['\x00']

/-- When the text fits: for five arrays never, for one up to four digits. -/
def Text.Fits (n : Nat) : Text → Prop
  | .weekstring | .daystring | .deltaString | .hardnessString | .currentTds23 => False
  | .automaticString => n < 10000
  | _ => True

theorem length_formatLong_ofNat {n k : Nat} (hn : n < 2 ^ 31) (hk : 0 < k) :
    (Text.formatLong (BitVec.ofNat 32 n).toInt).length ≤ k ↔ n < 10 ^ k := by
  have hvalue : (BitVec.ofNat 32 n).toInt = n := by
    have hnat : (BitVec.ofNat 32 n).toNat = n := by rw [BitVec.toNat_ofNat, Nat.mod_eq_of_lt (by omega)]
    rw [BitVec.toInt_eq_toNat_of_lt (by omega), hnat]
  have hpos : ¬ (n : Int) < 0 := by omega
  rw [hvalue, Text.formatLong, if_neg hpos, Int.natAbs_natCast]
  exact Nat.length_toDigits_le_iff (by decide) hk

theorem length_parts (before after : List Char) {text : List Char} {w : Nat} {v : Int} (hw : 0 < w)
    (h : text = before ++ (Text.formatPadded w v ++ after)) :
    (text ++ ['\x00']).length = before.length + after.length + 1 + max w (Text.formatLong v).length := by
  rw [h, List.length_append, List.length_append, List.length_append, Text.length_formatPadded hw, List.length_singleton]
  omega

/-- The least number of digits. -/
def Text.digits : Text → Nat
  | .weekstring | .daystring | .deltaString | .backwashString | .tdsPasswordString => 2
  | .manualString | .automaticString | .errorString | .hardnessString => 4
  | .currentTds23 | .currentTds24 => 5

/-- What is written beside the digits, the zero included. -/
def Text.around : Text → Nat
  | .weekstring | .errorString | .backwashString => 7
  | .daystring | .currentTds23 => 6
  | .manualString => 8
  | .automaticString => 11
  | .deltaString => 16
  | .hardnessString => 12
  | .tdsPasswordString | .currentTds24 => 1

theorem Text.length_written (x : Text) (n : Nat) :
    (x.written n).length = x.around + max x.digits (Text.formatLong (BitVec.ofNat 32 n).toInt).length := by
  cases x with
  | weekstring => exact length_parts "Weeks:".toList [] (by decide) rfl
  | daystring => exact length_parts "Days:".toList [] (by decide) rfl
  | manualString => exact length_parts "Manual:".toList [] (by decide) rfl
  | automaticString => exact length_parts "Automatic:".toList [] (by decide) rfl
  | deltaString => exact length_parts "Delta Pressure:".toList [] (by decide) rfl
  | errorString => exact length_parts "Error:".toList [] (by decide) rfl
  | hardnessString => exact length_parts "Hardness:".toList "uS".toList (by decide) rfl
  | backwashString => exact length_parts "Time:".toList "S".toList (by decide) rfl
  | tdsPasswordString => exact length_parts [] [] (by decide) rfl
  | currentTds23 => exact length_parts [] "us/cm".toList (by decide) rfl
  | currentTds24 => exact length_parts [] [] (by decide) rfl

/-- When a text fits. Five arrays are too small for every number, one for five digits. -/
theorem Text.fits_iff (x : Text) {n : Nat} (hn : n < 2 ^ x.width) : (x.written n).length ≤ x.size ↔ x.Fits n := by
  rw [length_written]
  cases x with
  | weekstring | daystring | deltaString | hardnessString | currentTds23 =>
    refine iff_of_false (fun h => ?_) id
    simp only [around, digits, size] at h
    omega
  | automaticString =>
    have hfour := length_formatLong_ofNat (k := 4) (Nat.lt_trans hn (by decide)) (by decide)
    simp only [around, digits, size, Fits]
    omega
  | manualString | errorString | backwashString | currentTds24 =>
    have hfive := (length_formatLong_ofNat (k := 5) (Nat.lt_trans hn (by decide)) (by decide)).mpr
      (Nat.lt_trans hn (by decide))
    refine iff_of_true ?_ trivial
    simp only [around, digits, size]
    omega
  | tdsPasswordString =>
    have hthree := (length_formatLong_ofNat (k := 3) (Nat.lt_trans hn (by decide)) (by decide)).mpr
      (Nat.lt_trans hn (by decide))
    refine iff_of_true ?_ trivial
    simp only [around, digits, size]
    omega

/-! ### What the windows format -/

/-- A load answers with a value of the variable's type. -/
def typed : (o : Op) → Res o → Prop
  | .load v, n => n < 2 ^ v.width
  | _, _ => True

/-- The texts the program formats show values of their types. -/
structure Shows {α : Type} (p : Code α) : Prop where
  bound : ∀ x n, p.ComesTo typed (.sprintf x n) → n < 2 ^ x.width

theorem Shows.compositional : Compositional fun (p : Code _) => Shows p where
  pure _ := ⟨fun _ _ h => h.elim⟩
  bind hp hf := ⟨fun x n h => h.bind_cases.elim (hp.bound x n) fun ⟨a, ha⟩ => (hf a).bound x n ha⟩

/-- A program that formats nothing. -/
theorem shows_of_all {W : Op → Bool} (hW : ∀ x n, W (.sprintf x n) = false) {α : Type} {p : Code α}
    (h : p.All fun o => W o = true) : Shows p := by
  refine ⟨fun x n hcomes => ?_⟩
  have ho : W (.sprintf x n) = true := hcomes.of_all (P := fun o => W o = true) h
  rw [hW x n] at ho
  cases ho

/-- The operations that format nothing. -/
def plain : Op → Bool
  | .sprintf _ _ => false
  | _ => true

theorem shows_perform {o : Op} (h : plain o = true) : Shows (perform o) :=
  shows_of_all (W := plain) (fun _ _ => rfl) (All.perform h)

theorem shows_sprintf {x : Text} {n : Nat} (h : n < 2 ^ x.width) : Shows (sprintf x n) := by
  refine ⟨fun y m hcomes => ?_⟩
  rcases hcomes with ho | ⟨r, -, ⟨⟩⟩
  cases ho
  exact h

/-- A program that goes on with what it has loaded. -/
theorem shows_load {v : Var} {α : Type} {f : Nat → Code α} (hf : ∀ n, n < 2 ^ v.width → Shows (f n)) :
    Shows (load v >>= f) := by
  refine ⟨fun x m hcomes => ?_⟩
  rcases hcomes with ho | ⟨n, hn, h⟩
  · cases ho
  · exact (hf n hn).bound x m h

/-- A variable is formatted as it has been loaded. -/
theorem shows_text {v : Var} {x : Text} (h : v.width ≤ x.width) : Shows (load v >>= sprintf x) :=
  shows_load fun _ hn => shows_sprintf (Nat.lt_of_lt_of_le hn (Nat.pow_le_pow_right Nat.two_pos h))

theorem shows_text_bind {v : Var} {x : Text} (h : v.width ≤ x.width) {α : Type} {f : Code α} (hf : Shows f) :
    Shows (do let n ← load v; sprintf x n; f) :=
  shows_load fun _ hn => Shows.compositional.bind
    (shows_sprintf (Nat.lt_of_lt_of_le hn (Nat.pow_le_pow_right Nat.two_pos h))) fun _ => hf

theorem shows_drawButtons (flags : List Nat) : Shows (drawButtons flags) :=
  built_drawButtons Shows.compositional (fun i n =>
    ⟨shows_perform (o := .setButton i n) rfl, shows_perform (o := .guiButton i) rfl⟩) flags

theorem shows_plain {α : Type} {p : Code α} (h : p.All fun o => plain o = true) : Shows p :=
  shows_of_all (W := plain) (fun _ _ => rfl) h

theorem shows_drawButton (i n : Nat) : Shows (drawButton i n) := shows_plain (all_drawButton rfl rfl)

theorem plain_flashSet (id n : Nat) : (flashSet id n).All fun o => plain o = true := all_flashSet rfl rfl rfl

theorem shows_takeKeys : Shows takeKeys := built_takeKeys Shows.compositional fun _ => shows_perform rfl

theorem shows_window {w : Win} {draw keys : Code Unit} (hdraw : Shows draw) (hkeys : Shows keys) :
    Shows (window w draw keys) := by
  refine Shows.compositional.bind (shows_perform rfl) fun (f : Nat) => ?_
  split
  · exact hdraw
  · exact hkeys

/-- A window with an answer to each of the keys. -/
theorem shows_menu {w : Win} {draw up down select : Code Unit} (hdraw : Shows draw) (hup : Shows up) (hdown : Shows down)
    (hselect : Shows select) : Shows (window w draw do
      let k ← takeKeys
      when (k.k0 = true) up
      when (k.k1 = true) down
      when (k.k2 = true) select) :=
  have hP := Shows.compositional
  shows_window hdraw (hP.bind shows_takeKeys fun _ => hP.bind (hP.when hup) fun _ => hP.bind (hP.when hdown) fun _ =>
    hP.when hselect)

section Windows
variable {display : Code Unit} (hd : Shows display)

section
variable (k : Schedule)

theorem plain_scheduleSave : (scheduleSave k).All fun o => plain o = true :=
  All.bind (All.perform rfl) fun _ => All.bind (All.perform rfl) fun _ => All.bind (All.perform rfl) fun _ =>
    All.bind (All.perform rfl) fun _ => All.bind (All.when (All.perform rfl)) fun _ => All.bind (All.perform rfl) fun _ =>
      All.bind (All.perform rfl) fun _ => All.bind (All.perform rfl) fun _ => All.bind (plain_flashSet _ _) fun _ =>
        All.bind (All.perform rfl) fun _ => All.bind (All.perform rfl) fun _ => All.bind (All.perform rfl) fun _ =>
          All.bind (plain_flashSet _ _) fun _ => All.bind (All.perform rfl) fun _ => All.bind (All.perform rfl) fun _ =>
            All.bind (All.perform rfl) fun _ => All.bind (All.perform rfl) fun _ => All.bind (plain_flashSet _ _) fun _ =>
              All.perform rfl

theorem shows_scheduleDraw : Shows (scheduleDraw k) := by
  have hP := Shows.compositional
  have hop : ∀ o, plain o = true → Shows (perform o) := fun _ => shows_perform
  refine hP.bind (hop _ rfl) fun _ => hP.bind (hop _ rfl) fun _ => hP.bind (hop _ rfl) fun _ => hP.bind (hop _ rfl) fun _ =>
    hP.bind (hop _ rfl) fun _ => hP.bind (hop _ rfl) fun _ => hP.bind (hop _ rfl) fun _ => ?_
  exact hP.bind (shows_drawButton 0 1) fun _ => shows_text_bind (v := .week k) (x := .weekstring) (Nat.le_refl 8)
    (hP.bind (shows_drawButton 1 1) fun _ => shows_text_bind (v := .day k) (x := .daystring) (Nat.le_refl 8)
      (hP.bind (shows_drawButton 2 0) fun _ => shows_drawButton 3 0))

/-- A field goes round, and is printed anew. -/
theorem shows_field {wrap : Code Unit} {v : Var} {x : Text} {i : Nat} (hwrap : wrap.All fun o => plain o = true)
    (h : v.width ≤ x.width) : Shows (do wrap; let n ← load v; sprintf x n; guiButton i) :=
  Shows.compositional.bind (shows_plain hwrap) fun _ => shows_text_bind h (shows_perform rfl)

theorem plain_wrapDown (v : Var) (top : Nat) : (wrapDown v top).All fun o => plain o = true :=
  All.bind (All.perform rfl) fun _ => All.bind (All.perform rfl) fun _ => All.when (All.perform rfl)

theorem plain_wrapUp (v : Var) (top : Nat) : (wrapUp v top).All fun o => plain o = true :=
  All.bind (All.perform rfl) fun _ => All.bind (All.perform rfl) fun _ => All.when (All.perform rfl)

theorem plain_drawEnable : (drawEnable k).All fun o => plain o = true :=
  All.bind (All.perform rfl) fun _ => All.when (All.perform rfl)

theorem shows_scheduleUp : Shows (scheduleUp k) := by
  have hP := Shows.compositional
  refine hP.bind (shows_perform rfl) fun (n : Nat) => ?_
  split
  · exact shows_field (x := .weekstring) (plain_wrapDown _ _) (Nat.le_refl 8)
  · exact shows_field (x := .daystring) (plain_wrapDown _ _) (Nat.le_refl 8)
  · exact shows_plain (All.bind (All.perform rfl) fun _ => All.bind (All.ite (all_decr rfl fun _ => rfl) (All.perform rfl))
      fun _ => plain_drawEnable k)
  · exact hP.pure ()

theorem shows_scheduleDown : Shows (scheduleDown k) := by
  have hP := Shows.compositional
  refine hP.bind (shows_perform rfl) fun (n : Nat) => ?_
  split
  · exact shows_field (x := .weekstring) (plain_wrapUp _ _) (Nat.le_refl 8)
  · exact shows_field (x := .daystring) (plain_wrapUp _ _) (Nat.le_refl 8)
  · exact shows_plain (All.bind (All.perform rfl) fun _ => All.bind (All.ite (all_incr rfl fun _ => rfl) (All.perform rfl))
      fun _ => plain_drawEnable k)
  · exact hP.pure ()

include hd

/-- A window leaves: it pops itself, displays what is below, and clears its flag. -/
theorem shows_leave (w : Win) : Shows (do guiWinDeleteTop; display; store (.firstFlag w) 0) :=
  Shows.compositional.bind (shows_perform rfl) fun _ => Shows.compositional.bind hd fun _ => shows_perform rfl

theorem shows_scheduleWinFun : Shows (scheduleWinFun display k) := by
  have hP := Shows.compositional
  have hnext : ∀ a b c : Nat, (do drawButton 1 a; drawButton 2 b; drawButton 3 c; incr .nowSetting : Code Unit).All
      fun o => plain o = true := fun _ _ _ => All.bind (all_drawButton rfl rfl) fun _ =>
    All.bind (all_drawButton rfl rfl) fun _ => All.bind (all_drawButton rfl rfl) fun _ => all_incr rfl fun _ => rfl
  refine shows_menu (shows_scheduleDraw k) (shows_scheduleUp k) (shows_scheduleDown k) ?_
  refine hP.bind (shows_perform rfl) fun (e : Nat) => ?_
  split
  · exact hP.bind (shows_perform rfl) fun _ => shows_leave hd k.win
  · refine hP.bind (shows_perform rfl) fun (n : Nat) => ?_
    split
    · exact shows_plain (hnext 0 1 0)
    · exact shows_plain (hnext 0 0 1)
    · exact shows_plain (plain_scheduleSave k)
    · exact hP.pure ()

end

theorem shows_counterWinFun (w : Win) (c : Counter) (id : Nat) {x : Text} (hx : x.width = 16) :
    Shows (counterWinFun w c id x) := by
  have hP := Shows.compositional
  refine shows_window ?_ ?_
  · exact hP.bind (shows_perform rfl) fun _ => hP.bind (shows_perform rfl) fun _ =>
      shows_text_bind (v := .counter c) (x := x) (Nat.le_of_eq hx.symm) (shows_drawButtons _)
  · refine hP.bind shows_takeKeys fun k => hP.bind (hP.when ?_) fun _ => hP.when ?_
    · exact shows_plain (all_nextButton (P := fun o => plain o = true) rfl (fun _ => rfl)
        (fun _ _ => all_drawButton rfl rfl) 3 1)
    · refine hP.bind (shows_perform rfl) fun (b : Nat) => hP.bind ?_ fun _ => shows_perform rfl
      split
      · exact shows_plain (All.bind (All.perform rfl) fun _ => All.bind (plain_flashSet _ _) fun _ => All.perform rfl)
      · exact shows_perform rfl
      · exact hP.pure ()

theorem shows_toggleSave : Shows toggleSave := by
  have hP := Shows.compositional
  refine hP.bind (shows_perform rfl) fun (b : Nat) => ?_
  split
  · exact hP.bind (shows_perform rfl) fun _ => hP.bind (shows_drawButton 1 0) fun _ => shows_drawButton 2 1
  · exact hP.bind (shows_perform rfl) fun _ => hP.bind (shows_drawButton 1 1) fun _ => shows_drawButton 2 0
  · exact hP.pure ()

include hd

theorem shows_numberSelect (w : Win) (setting temp : Var) (id : Nat) : Shows (numberSelect display w setting temp id) := by
  have hP := Shows.compositional
  refine hP.bind (shows_perform rfl) fun (b : Nat) => ?_
  split
  · exact hP.bind (shows_perform rfl) fun _ => hP.bind (shows_drawButton 0 0) fun _ => shows_drawButton 1 1
  · exact hP.bind (shows_perform rfl) fun _ => hP.bind (shows_perform rfl) fun _ => hP.bind (shows_perform rfl) fun _ =>
      hP.bind (shows_plain (plain_flashSet _ _)) fun _ => shows_leave hd w
  · exact shows_leave hd w
  · exact hP.pure ()

/-- Windows 16 and 17: the setting and its copy are as wide as the text, or less. -/
theorem shows_numberWinFun {w : Win} {setting temp : Var} {first : Code Nat} {x : Text} {id : Nat} {down up : Code Unit}
    (hsetting : setting.width ≤ x.width) (htemp : temp.width ≤ x.width) (hfirst : first.All fun o => plain o = true)
    (hdown : down.All fun o => plain o = true) (hup : up.All fun o => plain o = true) :
    Shows (numberWinFun display w setting temp first x id down up) := by
  have hP := Shows.compositional
  have hedit : ∀ change : Code Unit, (change.All fun o => plain o = true) → Shows (do
      let b ← load .nowButtonId
      if b = 0 then do
        change
        let n ← load temp
        sprintf x n
        guiButton 0
      else toggleSave) := by
    intro change hchange
    refine hP.bind (shows_perform rfl) fun (b : Nat) => ?_
    split
    · exact shows_field hchange htemp
    · exact shows_toggleSave
  refine shows_menu ?_ (hedit _ hdown) (hedit _ hup) (shows_numberSelect hd w setting temp id)
  exact hP.bind (shows_perform rfl) fun _ => hP.bind (shows_plain hfirst) fun _ => hP.bind (shows_perform rfl) fun _ =>
    hP.bind (shows_perform rfl) fun _ => shows_text_bind hsetting (shows_drawButtons _)

theorem shows_userMain16WinFun : Shows (userMain16WinFun display) :=
  shows_numberWinFun hd (by decide) (by decide) (All.pure _)
    (All.bind (All.perform rfl) fun _ => All.when (All.perform rfl)) (All.bind (All.perform rfl) fun _ => All.perform rfl)

theorem shows_userMain17WinFun : Shows (userMain17WinFun display) :=
  shows_numberWinFun hd (by decide) (by decide) (All.perform rfl)
    (All.bind (All.perform rfl) fun _ => All.when (All.perform rfl))
    (All.bind (All.perform rfl) fun _ => All.when (All.perform rfl))

omit hd

theorem shows_userMain21WinFun : Shows userMain21WinFun := by
  have hP := Shows.compositional
  have htext : Shows (load .tdsPasswordTemp >>= sprintf .tdsPasswordString) := shows_text (Nat.le_refl 8)
  refine shows_menu ?_ ?_ ?_ ?_
  · exact hP.bind (shows_perform rfl) fun _ => hP.bind (shows_perform rfl) fun _ => hP.bind (shows_perform rfl) fun _ =>
      shows_text_bind (v := .tdsPasswordTemp) (x := .tdsPasswordString) (Nat.le_refl 8) (shows_drawButton 3 1)
  · exact hP.bind (shows_perform rfl) fun _ => hP.bind (hP.when (shows_plain (all_decr rfl fun _ => rfl))) fun _ => htext
  · exact hP.bind (shows_plain (all_incr rfl fun _ => rfl)) fun _ => htext
  · refine hP.bind (shows_perform rfl) fun (n : Nat) => hP.bind ?_ fun _ => shows_perform rfl
    split
    · exact shows_perform rfl
    · exact shows_perform rfl

theorem shows_tdsWork {f : Nat → Code Unit} (hf : ∀ n, n < 2 ^ 32 → Shows (f n)) : Shows (tdsWork >>= f) := by
  show Shows (do let n ← load .tdsValue; store .tdsValue 0; store .dataParsingId 0; f n)
  refine shows_load fun n hn => Shows.compositional.bind (shows_perform rfl) fun _ => ?_
  exact Shows.compositional.bind (shows_perform rfl) fun _ => hf n hn

theorem shows_userMain23WinFun : Shows userMain23WinFun := by
  have hP := Shows.compositional
  refine shows_window ?_ (shows_tdsWork fun n hn => hP.bind (shows_sprintf hn) fun _ => ?_)
  · exact hP.bind (shows_perform rfl) fun _ => hP.bind (shows_perform rfl) fun _ =>
      hP.bind (shows_sprintf (Nat.two_pow_pos _)) fun _ => shows_drawButton 3 1
  · exact hP.bind (shows_perform rfl) fun _ => hP.bind shows_takeKeys fun _ => hP.when (hP.bind (shows_perform rfl) fun _ =>
      hP.bind (shows_perform rfl) fun _ => shows_perform rfl)

include hd

theorem shows_userMain24WinFun : Shows (userMain24WinFun display) := by
  have hP := Shows.compositional
  refine shows_menu ?_ (shows_leave hd .w24) ?_ (shows_leave hd .w24)
  · exact hP.bind (shows_perform rfl) fun _ => hP.bind (shows_perform rfl) fun _ => hP.bind (shows_perform rfl) fun _ =>
      hP.bind (shows_sprintf (Nat.two_pow_pos _)) fun _ => shows_drawButton 3 1
  · exact hP.bind (shows_perform rfl) fun _ => hP.bind (shows_perform rfl) fun _ =>
      shows_text (x := .currentTds24) (Nat.le_refl 16)

theorem shows_winFun (w : Win) : Shows (winFun display w) := by
  have hplain (hw : ∀ x, formats w x = false) : Shows (winFun display w) := by
    have hW : ∀ x n, editMay w (.sprintf x n) = false := fun x n => by rw [editMay, edits, hw x, Bool.and_false]
    exact edits_winFun Shows.compositional hd fun o ho => shows_of_all hW (All.perform ho)
  cases w with
  | w4 => exact shows_scheduleWinFun hd .reminder
  | w5 => exact shows_scheduleWinFun hd .automatic
  | w9 => exact shows_counterWinFun .w9 .manual 8 rfl
  | w10 => exact shows_counterWinFun .w10 .automatic 9 rfl
  | w11 => exact shows_counterWinFun .w11 .deltapress 10 rfl
  | w12 => exact shows_counterWinFun .w12 .error 11 rfl
  | w16 => exact shows_userMain16WinFun hd
  | w17 => exact shows_userMain17WinFun hd
  | w21 => exact shows_userMain21WinFun
  | w23 => exact shows_userMain23WinFun
  | w24 => exact shows_userMain24WinFun hd
  | _ => exact hplain fun x => by cases x <;> rfl

end Windows

theorem shows_guiWinDisplay (depth : Nat) : Shows (guiWinDisplay depth) := by
  have hP := Shows.compositional
  induction depth with
  | zero => exact hP.pure ()
  | succ depth ih =>
    refine hP.bind (shows_perform rfl) fun top => ?_
    cases top with
    | none => exact hP.pure ()
    | some w => exact hP.bind (shows_perform rfl) fun _ => shows_winFun ih w

theorem shows_motoCycle (caller : Caller) : Shows (motoCycle caller) :=
  built_motoCycle Shows.compositional (fun _ ho => shows_of_all (W := requestMay) (fun _ _ => rfl) (All.perform ho))
    fun _ hp => Shows.compositional.bind (shows_perform rfl) fun _ => hp

theorem shows_lcdTaskEntry (depth : Nat) : Shows (lcdTaskEntry depth) :=
  built_lcdTaskEntry Shows.compositional (shows_guiWinDisplay depth)
    (built_openLcdDisplay Shows.compositional fun _ ho => shows_of_all (W := openMay) (fun _ _ => rfl) (All.perform ho))
    (shows_motoCycle _) fun _ ho => shows_of_all (W := taskMay) (fun _ _ => rfl) (All.perform ho)

/-- Only the display thread formats. -/
theorem not_may_sprintf {t : Thread} (ht : t ≠ .lcd) (x : Text) (n : Nat) : may t (.sprintf x n) = false := by
  cases t with
  | lcd => exact absurd rfl ht
  | _ => rfl

theorem shows_body (depth : Nat) (c : Call) : Shows (body depth c) := by
  by_cases hc : c.thread = .lcd
  · cases c with
    | lcdTask => exact shows_lcdTaskEntry depth
    | motoCycle caller => exact shows_motoCycle caller
    | scheduleSave k => exact shows_plain (plain_scheduleSave k)
    | _ => cases hc
  · exact shows_of_all (not_may_sprintf hc) (body_may depth c)

/-! ### Runs -/

/-- The answers of a device are of their types. -/
theorem typed_exec {s : Device} (h : Bounded s) (t : Thread) (o : Op) (i : Input) : typed o (exec t o i s).2 := by
  cases o with
  | load v => exact h v
  | _ => trivial

theorem Shows.next {o : Op} {k : Res o → Code Unit} (h : Shows (.op o k)) {r : Res o} (hr : typed o r) : Shows (k r) :=
  ⟨fun x n hcomes => h.bound x n (.inr ⟨r, hr, hcomes⟩)⟩

/-- What the threads have left to do shows values of their types. -/
def Showing (cfg : Conf) : Prop := Bounded cfg.state ∧ ∀ t c p, cfg.task t = some (c, p) → Shows p

theorem Showing.next {allowed : Call → Bool} {depth : Nat} {cfg : Conf} (h : Showing cfg) (a : Act) :
    Showing ((board allowed depth).next cfg a) := by
  refine ⟨Bounded.next h.1 a, fun t c p htask => ?_⟩
  rcases System.next_task htask with hsame | ⟨-, rfl⟩ | ⟨i, o, k, hk, rfl⟩
  · exact h.2 t c p hsame
  · exact shows_body depth c
  · exact (h.2 t c _ hk).next (typed_exec h.1 t o i)

theorem run_showing (allowed : Call → Bool) (depth : Nat) (flash : Nat → Nat) (as : List Act) :
    Showing ((board allowed depth).run (start flash) as) :=
  System.run_invariant Showing (fun _ a h _ => h.next a) ⟨run_bounded allowed depth flash [], fun _ _ _ h => by cases h⟩
    (System.admits_true _ as)

/-- **A text that a run formats** overruns its array unless it is one the array has room for. -/
theorem run_fits_iff (allowed : Call → Bool) (depth : Nat) (flash : Nat → Nat) (as : List Act) {t : Thread} {x : Text}
    {n : Nat} (h : ((board allowed depth).run (start flash) as).head t = some (.sprintf x n)) :
    (x.written n).length ≤ x.size ↔ x.Fits n := by
  obtain ⟨⟨c, p⟩, htask, hp⟩ := Option.bind_eq_some_iff.mp h
  cases p with
  | ret a => cases hp
  | op o k =>
    obtain rfl : o = .sprintf x n := Option.some.inj hp
    exact Text.fits_iff x (((run_showing allowed depth flash as).2 t c _ htask).bound x n (.inl rfl))

/-- A window formats its own texts. -/
theorem formats_of_comesTo {w : Win} {x : Text} {n : Nat}
    (h : (winFun (pure ()) w).ComesTo typed (.sprintf x n)) : formats w x = true := by
  have hedit : (winFun (pure ()) w).All fun o => editMay w o = true :=
    edits_winFun (All.compositional _) (All.pure ()) fun _ ho => All.perform ho
  have hop : editMay w (.sprintf x n) = true := h.of_all (P := fun o => editMay w o = true) hedit
  exact (Bool.and_eq_true_iff.mp hop).2

/-- **A formatted text fits its array** in the windows 9, 12, 17, 21 and 24, and in window 10 up to
four digits; in the other windows never. -/
theorem formatted_fits_iff (w : Win) (x : Text) (n : Nat) (h : (winFun (pure ()) w).ComesTo typed (.sprintf x n)) :
    (x.written n).length ≤ x.size ↔
      w = .w9 ∨ w = .w12 ∨ w = .w17 ∨ w = .w21 ∨ w = .w24 ∨ w = .w10 ∧ n < 10000 := by
  have hx := formats_of_comesTo h
  rw [Text.fits_iff x ((shows_winFun (Shows.compositional.pure ()) w).bound x n h)]
  cases x <;> cases w <;> simp [formats, Text.Fits] at hx ⊢

/-- A counter's window formats the counter, whatever it has come to. -/
theorem counterWinFun_comesTo (w : Win) (c : Counter) (id : Nat) (x : Text) {n : Nat} (hn : n < 2 ^ 16) :
    (counterWinFun w c id x).ComesTo typed (.sprintf x n) :=
  .inr ⟨0, Nat.two_pow_pos _, .inr ⟨(), trivial, .inr ⟨(), trivial, .inr ⟨n, hn, .inl rfl⟩⟩⟩⟩

theorem formatted_fits_iff_manual : (Text.written .manualString 65535).length ≤ Text.size .manualString ↔
    Win.w9 = .w9 ∨ Win.w9 = .w12 ∨ Win.w9 = .w17 ∨ Win.w9 = .w21 ∨ Win.w9 = .w24 ∨ Win.w9 = .w10 ∧ 65535 < 10000 :=
  formatted_fits_iff .w9 .manualString 65535 (counterWinFun_comesTo .w9 .manual 8 .manualString (by decide))

/-- With five digits the counter of automatic backwashes takes 16 bytes of 15. -/
theorem formatted_overflows : ¬ ∀ (w : Win) (x : Text) (n : Nat), (winFun (pure ()) w).ComesTo typed (.sprintf x n) →
    (x.written n).length ≤ x.size := by
  intro h
  have hfits := h .w10 .automaticString 10000 (counterWinFun_comesTo .w10 .automatic 9 .automaticString (by decide))
  rw [Text.fits_iff .automaticString (by decide)] at hfits
  exact Nat.lt_irrefl 10000 hfits

end Backwash.Firmware
