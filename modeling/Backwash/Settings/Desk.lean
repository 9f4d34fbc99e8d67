import Backwash.Concurrent.Owner
import Backwash.Firmware.Obligations

/-! The settings on the display thread's desk.

Eleven settings live in RAM and, under an id each, in the store. Only the display
thread writes either, from an edited copy, in the window that edits the setting and
after that window has taken a token of K2. What the thread knows of all this is its
desk: the settings, their copies, their entries in the store, the window it is in and
whether it took K2 there. Its passes are run over the desk alone. -/
namespace Backwash.Settings
open Concurrent Prog Firmware

/-! ### The settings -/

inductive Setting where
  | week (k : Schedule) | day (k : Schedule) | enable (k : Schedule)
  | deltapressEnable | settingDeltapress | settingHardness | settingBackwashtime | settingLanguage
  deriving DecidableEq, Repr

namespace Setting

def var : Setting → Var
  | .week k => .week k
  | .day k => .day k
  | .enable k => .enable k
  | .deltapressEnable => .deltapressEnable
  | .settingDeltapress => .settingDeltapress
  | .settingHardness => .settingHardness
  | .settingBackwashtime => .settingBackwashtime
  | .settingLanguage => .settingLanguage

/-- The entry of the store, as an index into `Key_list`. -/
def entry : Setting → Nat
  | .week k => k.weekId
  | .day k => k.dayId
  | .enable k => k.enableId
  | .deltapressEnable => 7
  | .settingDeltapress => 12
  | .settingHardness => 13
  | .settingBackwashtime => 14
  | .settingLanguage => 15

/-- The window that edits it. -/
def win : Setting → Win
  | .week k | .day k | .enable k => k.win
  | .deltapressEnable => .w6
  | .settingDeltapress => .w15
  | .settingHardness => .w16
  | .settingBackwashtime => .w17
  | .settingLanguage => .w20

def ofVar : Var → Option Setting
  | .week k => some (.week k)
  | .day k => some (.day k)
  | .enable k => some (.enable k)
  | .deltapressEnable => some .deltapressEnable
  | .settingDeltapress => some .settingDeltapress
  | .settingHardness => some .settingHardness
  | .settingBackwashtime => some .settingBackwashtime
  | .settingLanguage => some .settingLanguage
  | _ => none

def ofEntry : Nat → Option Setting
  | 1 => some (.week .reminder)
  | 2 => some (.day .reminder)
  | 3 => some (.enable .reminder)
  | 4 => some (.week .automatic)
  | 5 => some (.day .automatic)
  | 6 => some (.enable .automatic)
  | 7 => some .deltapressEnable
  | 12 => some .settingDeltapress
  | 13 => some .settingHardness
  | 14 => some .settingBackwashtime
  | 15 => some .settingLanguage
  | _ => none

@[simp] theorem ofVar_var (a : Setting) : ofVar a.var = some a := by cases a <;> rfl

@[simp] theorem ofEntry_entry (a : Setting) : ofEntry a.entry = some a := by
  cases a with
  | week k => cases k <;> rfl
  | day k => cases k <;> rfl
  | enable k => cases k <;> rfl
  | _ => rfl

theorem var_injective : Function.Injective var := fun a b h => by
  have := congrArg ofVar h
  simpa using this

theorem entry_injective : Function.Injective entry := fun a b h => by
  have := congrArg ofEntry h
  simpa using this

end Setting

/-- The variables of the desk: the settings and their edited copies. -/
def edited : Var → Bool
  | .week _ | .day _ | .enable _ | .weekTemp _ | .dayTemp _ | .enableTemp _
  | .deltapressEnable | .settingDeltapress | .settingHardness | .settingBackwashtime | .settingLanguage
  | .deltapressEnableTemp | .setDeltaTemp | .setHardnessTemp | .setBackwashTemp | .setLanguageTemp => true
  | _ => false

@[simp] theorem edited_var (a : Setting) : edited a.var = true := by cases a <;> rfl

/-! ### Keys and windows -/

/-- The window whose function was entered last. -/
def openWindow : Trace → Option Win
  | [] => none
  | .did _ (.mark (.winFun w)) _ :: _ => some w
  | _ :: tr => openWindow tr

/-- `K2_Sem` was asked since a window function was entered. -/
def asked : Trace → Bool
  | [] => false
  | .did _ (.mark (.winFun _)) _ :: _ => false
  | .did _ (.semTake .k2) _ :: _ => true
  | _ :: tr => asked tr

/-- The function of window `w` was entered last, and it has taken a token of K2. -/
def TookK2 (w : Win) (s : Device) (tr : Trace) : Prop :=
  openWindow tr = some w ∧ asked tr = true ∧ s.taken .k2 ≠ none

/-- Whether `Flash_Factory` has been entered since a window function was, after an
operation. -/
def entered (o : Op) (b : Bool) : Bool :=
  match o with
  | .mark .flashFactory => true
  | .mark (.winFun _) => false
  | _ => b

def inFactory : Trace → Bool
  | [] => false
  | .did _ o _ :: tr => entered o (inFactory tr)
  | .began _ _ :: tr => inFactory tr

/-- The reset after a factory reset has been reached. -/
def rebooted : Trace → Bool
  | [] => false
  | .did _ .cpuReset _ :: _ => true
  | _ :: tr => rebooted tr

/-- If the last operation wrote a setting, or its entry, a token of K2 had been taken
by its editor, or by window 19 for `Flash_Factory`, which writes entries only. -/
def ByKey (s : Device) : Trace → Prop
  | .did t o _ :: tr => ∀ a : Setting,
      ((∃ n, o = .store a.var n) → t = .lcd ∧ TookK2 a.win s tr) ∧
      ((∃ n, o = .efSet a.entry n) → t = .lcd ∧ (TookK2 a.win s tr ∨ TookK2 .w19 s tr ∧ inFactory tr = true))
  | _ => True

/-! ### The desk -/

structure Desk where
  vars : Var → Nat
  flash : Nat → Nat
  win : Option Win
  k2 : Bool
  factory : Bool
  reset : Bool
  fault : Bool

namespace Desk

/-- The desk is at window `w` and a token of K2 was taken there. -/
def at_ (x : Desk) (w : Win) : Bool := x.win == some w && x.k2

def after : (o : Op) → Res o → Desk → Desk
  | .store v n, _, x =>
    if edited v then
      {x with vars := Function.update x.vars v (n % 2 ^ v.width)
              fault := x.fault || (Setting.ofVar v).any fun a => !x.at_ a.win}
    else x
  | .efSet id n, _, x =>
    if (Setting.ofEntry id).isSome then
      {x with flash := Function.update x.flash id (n % 2 ^ 32)
              fault := x.fault || (Setting.ofEntry id).any fun a => !(x.at_ a.win || x.at_ .w19 && x.factory)}
    else x
  | .semTake .k2, r, x => {x with k2 := r}
  | .mark (.winFun w), _, x => {x with win := some w, k2 := false, factory := false}
  | .mark .flashFactory, _, x => {x with factory := true}
  | .cpuReset, _, x => {x with reset := true}
  | _, _, x => x

def can : (o : Op) → Desk → Res o → Prop
  | .load v, x, r => edited v = true → r = x.vars v ∧ r < 2 ^ v.width
  | _, _, _ => True

structure Sees (x : Desk) (s : Device) (tr : Trace) : Prop where
  vars : ∀ v, edited v = true → s.vars v = x.vars v ∧ s.vars v < 2 ^ v.width
  flash : ∀ a : Setting, s.flash a.entry = x.flash a.entry
  win : openWindow tr = x.win
  k2 : x.k2 = true → asked tr = true ∧ s.taken .k2 ≠ none
  factory : inFactory tr = x.factory
  reset : rebooted tr = x.reset
  byKey : x.fault = false → ByKey s tr

/-! ### What an operation does to the desk -/

/-- The operation leaves the desk as it is. -/
def aside : Op → Bool
  | .store v _ => !edited v
  | .efSet id _ => (Setting.ofEntry id).isNone
  | .semTake k => k != .k2
  | .mark m => match m with
    | .winFun _ | .flashFactory => false
    | _ => true
  | .cpuReset => false
  | _ => true

section
variable {t : Thread} {o : Op} {i : Input} {s : Device} {tr : Trace} {x : Desk}

theorem after_aside (h : aside o = true) (r : Res o) (x : Desk) : x.after o r = x := by
  cases o with
  | store v n => simp only [aside, Bool.not_eq_true'] at h; simp [after, h]
  | efSet id n => simp only [aside, Option.isNone_iff_eq_none] at h; simp [after, h]
  | semTake k => cases k <;> first | rfl | cases h
  | mark m => cases m <;> first | rfl | cases h
  | cpuReset => cases h
  | _ => rfl

/-- What a thread other than the display's does to the settings and their entries. -/
theorem aside_other (ht : t ≠ .lcd) (hmay : may t o = true) : aside o = true := by
  cases o with
  | store v n =>
    cases v <;> first | rfl | (cases t <;> first | exact absurd rfl ht | cases hmay)
  | efSet id n =>
    have hid : id = 9 ∨ id = 11 ∨ id = 16 ∨ id = 17 := by
      cases t <;> first
        | exact absurd rfl ht
        | (simp only [may, timerMay, rtcCheckMay, motorMay, Bool.or_eq_true, beq_iff_eq] at hmay; omega)
        | cases hmay
    rcases hid with rfl | rfl | rfl | rfl <;> rfl
  | semTake k => cases k <;> first | rfl | (cases t <;> first | exact absurd rfl ht | cases hmay)
  | mark m => cases m <;> first | rfl | (cases t <;> first | exact absurd rfl ht | cases hmay)
  | cpuReset => cases t <;> first | exact absurd rfl ht | cases hmay
  | _ => rfl

/-- An operation that concerns none of it, by any thread. -/
theorem Sees.aside (h : Sees x s tr) (ho : aside o = true) : Sees x (exec t o i s).1 (.did t o i :: tr) := by
  have hvars : ∀ v, edited v = true → (exec t o i s).1.vars v = s.vars v := by
    intro v hv
    refine exec_vars (fun n e => ?_) (fun w e => ?_) (fun e => ?_) i
    · subst e
      simp [Desk.aside, hv] at ho
    · subst e
      cases hv
    · subst e
      cases hv
  have hflash : ∀ a : Setting, (exec t o i s).1.flash a.entry = s.flash a.entry := by
    refine fun a => exec_flash (fun n e => ?_) i
    subst e
    simp [Desk.aside] at ho
  have htaken : (exec t o i s).1.taken .k2 = s.taken .k2 := exec_taken (fun e => by subst e; cases ho) i
  have hwin : openWindow (.did t o i :: tr) = openWindow tr := by
    cases o with
    | mark m => cases m <;> first | rfl | cases ho
    | _ => rfl
  have hasked : asked (.did t o i :: tr) = asked tr := by
    cases o with
    | mark m => cases m <;> first | rfl | cases ho
    | semTake k => cases k <;> first | rfl | cases ho
    | _ => rfl
  refine ⟨fun v hv => ?_, fun a => (hflash a).trans (h.flash a), hwin.trans h.win, fun e => ?_, ?_, ?_, fun _ => ?_⟩
  · rw [hvars v hv]
    exact h.vars v hv
  · rw [hasked, htaken]
    exact h.k2 e
  · rw [← h.factory]
    cases o with
    | mark m => cases m <;> first | rfl | cases ho
    | _ => rfl
  · rw [← h.reset]
    cases o <;> first | rfl | cases ho
  · intro a
    constructor
    · rintro ⟨n, rfl⟩
      simp [Desk.aside] at ho
    · rintro ⟨n, rfl⟩
      simp [Desk.aside] at ho

theorem byKey_of_ne (hs : ∀ v n, o ≠ .store v n) (he : ∀ id n, o ≠ .efSet id n) : ByKey s (.did t o i :: tr) :=
  fun a => ⟨fun ⟨n, e⟩ => absurd e (hs a.var n), fun ⟨n, e⟩ => absurd e (he a.entry n)⟩

/-- A token taken where the desk is. -/
theorem Sees.took (h : Sees x s tr) {w : Win} (hat : x.at_ w = true) : TookK2 w s tr := by
  simp only [at_, Bool.and_eq_true, beq_iff_eq] at hat
  exact ⟨h.win.trans hat.1, h.k2 hat.2⟩

theorem Sees.store (h : Sees x s tr) {v : Var} (hv : edited v = true) (n : Nat) :
    Sees (x.after (.store v n) ()) (s.store v n) (.did .lcd (.store v n) i :: tr) := by
  have hafter : x.after (.store v n) () = {x with
      vars := Function.update x.vars v (n % 2 ^ v.width)
      fault := x.fault || (Setting.ofVar v).any fun a => !x.at_ a.win} := if_pos hv
  rw [hafter]
  refine ⟨fun u hu => ?_, h.flash, h.win, h.k2, h.factory, h.reset,
    fun hf a => ⟨fun ⟨m, e⟩ => ⟨rfl, ?_⟩, fun ⟨m, e⟩ => (by cases e)⟩⟩
  · by_cases huv : u = v
    · subst huv
      simp [Device.store, Nat.mod_lt _ (Nat.two_pow_pos _)]
    · simp only [Device.store, Function.update_of_ne huv]
      exact h.vars u hu
  · obtain ⟨rfl, -⟩ : v = a.var ∧ n = m := by simpa using e
    have hat : x.at_ a.win = true := by
      simp only [Setting.ofVar_var, Option.any_some, Bool.or_eq_false_iff, Bool.not_eq_false'] at hf
      exact hf.2
    exact h.took hat

theorem Sees.efSet (h : Sees x s tr) {id : Nat} (hid : (Setting.ofEntry id).isSome = true) (n : Nat) :
    Sees (x.after (.efSet id n) ()) (exec .lcd (.efSet id n) i s).1 (.did .lcd (.efSet id n) i :: tr) := by
  have hafter : x.after (.efSet id n) () = {x with
      flash := Function.update x.flash id (n % 2 ^ 32)
      fault := x.fault || (Setting.ofEntry id).any fun a => !(x.at_ a.win || x.at_ .w19 && x.factory)} := if_pos hid
  rw [hafter]
  refine ⟨h.vars, fun a => ?_, h.win, h.k2, h.factory, h.reset,
    fun hf a => ⟨fun ⟨m, e⟩ => (by cases e), fun ⟨m, e⟩ => ⟨rfl, ?_⟩⟩⟩
  · by_cases ha : a.entry = id
    · simp [exec, ha]
    · simp only [exec, Function.update_of_ne ha]
      exact h.flash a
  · obtain ⟨rfl, -⟩ : id = a.entry ∧ n = m := by simpa using e
    have hat : x.at_ a.win = true ∨ x.at_ .w19 = true ∧ x.factory = true := by
      simp only [Setting.ofEntry_entry, Option.any_some, Bool.or_eq_false_iff, Bool.not_eq_false', Bool.or_eq_true,
        Bool.and_eq_true] at hf
      exact hf.2
    exact hat.imp h.took fun hat => ⟨h.took hat.1, h.factory.trans hat.2⟩

theorem Sees.own (h : Sees x s tr) :
    Sees (x.after o (exec .lcd o i s).2) (exec .lcd o i s).1 (.did .lcd o i :: tr) := by
  by_cases ho : Desk.aside o = true
  · rw [after_aside ho]
    exact h.aside ho
  cases o with
  | store v n => exact h.store (by simpa [Desk.aside] using ho) n
  | efSet id n => exact h.efSet (by simpa [Desk.aside, Option.isSome_iff_ne_none] using ho) n
  | semTake k =>
    obtain rfl : k = .k2 := by simpa [Desk.aside] using ho
    refine ⟨h.vars, h.flash, h.win, fun e => ⟨rfl, ?_⟩, h.factory, h.reset, fun _ => byKey_of_ne (by simp) (by simp)⟩
    have htoken : (!(s.sem .k2).isEmpty) = true := e
    cases hs : s.sem .k2 with
    | nil => simp [hs] at htoken
    | cons u rest => simp [exec, hs]
  | mark m =>
    cases m with
    | winFun w =>
      exact ⟨h.vars, h.flash, rfl, fun e => absurd e Bool.false_ne_true, rfl, h.reset,
        fun _ => byKey_of_ne (by simp) (by simp)⟩
    | flashFactory =>
      exact ⟨h.vars, h.flash, h.win, h.k2, rfl, h.reset, fun _ => byKey_of_ne (by simp) (by simp)⟩
    | _ => exact absurd rfl ho
  | cpuReset => exact ⟨h.vars, h.flash, h.win, h.k2, h.factory, rfl, fun _ => byKey_of_ne (by simp) (by simp)⟩
  | _ => exact absurd rfl ho

theorem Sees.can (h : Sees x s tr) : x.can o (exec .lcd o i s).2 := by
  cases o with
  | load v =>
    intro hv
    obtain ⟨he, hlt⟩ := h.vars v hv
    exact ⟨he, hlt⟩
  | _ => exact trivial

theorem Sees.began (h : Sees x s tr) (c : Call) : Sees x (enter c s) (.began t c :: tr) := by
  have hvars : ∀ v, edited v = true → (enter c s).vars v = s.vars v := fun v hv =>
    enter_vars (fun k e => by subst e; cases hv) (fun e => by subst e; cases hv) c s
  refine ⟨fun v hv => ?_, fun a => ?_, h.win, fun e => ?_, h.factory, h.reset, fun _ => trivial⟩
  · rw [hvars v hv]
    exact h.vars v hv
  · rw [enter_flash]
    exact h.flash a
  · rw [enter_taken]
    exact h.k2 e

end

/-! ### What a pass leaves -/

/-- `Week <= 51`, `Day <= 6`, `Enable <= 1`, and an enabled schedule has a period. -/
structure ValidSchedule (w d e : Nat) : Prop where
  week : w ≤ 51
  day : d ≤ 6
  enable : e ≤ 1
  period : e = 1 → 1 ≤ 7 * w + d

/-- A valid schedule and copies that can be edited into another one. -/
structure Sound (vars : Var → Nat) (k : Schedule) : Prop where
  schedule : ValidSchedule (vars (.week k)) (vars (.day k)) (vars (.enable k))
  weekTemp : vars (.weekTemp k) ≤ 51
  dayTemp : vars (.dayTemp k) ≤ 6
  enableTemp : vars (.enableTemp k) ≤ 2

/-- The schedules are valid, if `v` says they were at the start, and RAM agrees with
the store, if `e` says it did and until a factory reset. -/
structure Tidy (v e : Prop) (x : Desk) : Prop where
  valid : v → ∀ k, Sound x.vars k
  equal : e → x.reset = false → ∀ a : Setting, x.vars a.var = x.flash a.entry

section
variable {v e : Prop} {x : Desk}

/-- A copy is changed. -/
theorem Tidy.set (h : Tidy v e x) {u : Var} {n : Nat} (hu : Setting.ofVar u = none)
    (hn : v → ∀ k, (u = .weekTemp k → n ≤ 51) ∧ (u = .dayTemp k → n ≤ 6) ∧ (u = .enableTemp k → n ≤ 2)) :
    Tidy v e {x with vars := Function.update x.vars u n} := by
  have hne : ∀ a : Setting, a.var ≠ u := by
    rintro a rfl
    simp at hu
  refine ⟨fun hv k => ?_, fun he hr a => ?_⟩
  · have hold := h.valid hv k
    have hsame : ∀ a : Setting, Function.update x.vars u n a.var = x.vars a.var := fun a =>
      Function.update_of_ne (hne a) _ _
    refine ⟨?_, ?_, ?_, ?_⟩
    · show ValidSchedule (Function.update x.vars u n (Setting.week k).var)
        (Function.update x.vars u n (Setting.day k).var) (Function.update x.vars u n (Setting.enable k).var)
      rw [hsame, hsame, hsame]
      exact hold.schedule
    · by_cases e : Var.weekTemp k = u
      · subst e
        simpa using (hn hv k).1 rfl
      · simpa [Function.update_of_ne e] using hold.weekTemp
    · by_cases e : Var.dayTemp k = u
      · subst e
        simpa using (hn hv k).2.1 rfl
      · simpa [Function.update_of_ne e] using hold.dayTemp
    · by_cases e : Var.enableTemp k = u
      · subst e
        simpa using (hn hv k).2.2 rfl
      · simpa [Function.update_of_ne e] using hold.enableTemp
  · simp only [Function.update_of_ne (hne a)]
    exact h.equal he hr a

/-- A setting is written together with its entry. -/
def save (x : Desk) (a : Setting) (n : Nat) : Desk :=
  {x with vars := Function.update x.vars a.var n, flash := Function.update x.flash a.entry n}

theorem save_equal {a : Setting} (h : ∀ b : Setting, x.vars b.var = x.flash b.entry) (n : Nat) (b : Setting) :
    (x.save a n).vars b.var = (x.save a n).flash b.entry := by
  by_cases hb : b = a
  · subst hb
    simp [save]
  · have hvar : b.var ≠ a.var := fun e => hb (Setting.var_injective e)
    have hentry : b.entry ≠ a.entry := fun e => hb (Setting.entry_injective e)
    simp [save, hvar, hentry, h b]

/-- A setting that belongs to no schedule is saved. -/
theorem Tidy.save (h : Tidy v e x) {a : Setting} (ha : ∀ k : Schedule, a.win ≠ k.win) (n : Nat) : Tidy v e (x.save a n) := by
  refine ⟨fun hv k => ?_, fun he hr => save_equal (h.equal he hr) n⟩
  have hne : ∀ u, edited u = true → (∀ b : Setting, b.win ≠ k.win → u ≠ b.var) → (x.save a n).vars u = x.vars u :=
    fun u _ hu => Function.update_of_ne (hu a (ha k)) _ _
  have hold := h.valid hv k
  have hvar : ∀ b : Setting, b.win ≠ k.win → Var.week k ≠ b.var ∧ Var.day k ≠ b.var ∧ Var.enable k ≠ b.var ∧
      Var.weekTemp k ≠ b.var ∧ Var.dayTemp k ≠ b.var ∧ Var.enableTemp k ≠ b.var := by
    intro b hb
    cases b <;> simp [Setting.var] <;> (rintro rfl; exact hb rfl)
  refine ⟨?_, ?_, ?_, ?_⟩
  · rw [hne _ rfl fun b hb => (hvar b hb).1, hne _ rfl fun b hb => (hvar b hb).2.1,
      hne _ rfl fun b hb => (hvar b hb).2.2.1]
    exact hold.schedule
  · rw [hne _ rfl fun b hb => (hvar b hb).2.2.2.1]
    exact hold.weekTemp
  · rw [hne _ rfl fun b hb => (hvar b hb).2.2.2.2.1]
    exact hold.dayTemp
  · rw [hne _ rfl fun b hb => (hvar b hb).2.2.2.2.2]
    exact hold.enableTemp

end

end Desk

/-- Everything but a save of a schedule from outside its window. -/
def loopCalls : Call → Bool
  | .scheduleSave _ => false
  | _ => true

/-- The display thread and its desk. -/
def desk (v e : Prop) (depth : Nat) : Owner (board loopCalls depth) Desk where
  can := Desk.can
  after := Desk.after
  Safe := fun x => x.fault = false
  thread := .lcd
  may := fun t o => may t o = true
  Rule := fun _ _ => True
  Sees := Desk.Sees
  Rest := Desk.Tidy v e
  first := fun _ x => x
  body_may := @ready_may loopCalls depth
  own := fun _ _ _ hsees => ⟨hsees.can, hsees.own⟩
  other := fun ht hmay _ _ hsees => hsees.aside (Desk.aside_other ht hmay)
  begins := fun _ _ _ hsafe hsees => ⟨hsafe, hsees.began _⟩
  begins_other := fun _ _ _ hsees => hsees.began _

end Backwash.Settings
