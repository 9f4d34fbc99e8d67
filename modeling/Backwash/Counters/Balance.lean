import Backwash.Firmware.Tally
import Backwash.Lcd.Tokens

/-! The backwash counters and the backwashes.

`Counter_Manual` is counted up in window 2 before `Moto_Cycle` is called, `Counter_Automatic`
when an automatic backwash is due, some time before the display thread finds the request
and calls it. What is counted and not yet accepted is owed: by a thread on its way, or by the
request flag. A call that is refused, a request on top of another and a count that is lost
upset the balance. -/
namespace Backwash.Counters
open Concurrent Prog Protocol Firmware Lcd Motor

/-- The backwashes that are counted and called by the display thread. -/
inductive Kind where
  | manual | automatic
  deriving DecidableEq, Repr

def Kind.counter : Kind → Counter
  | .manual => .manual
  | .automatic => .automatic

/-- Who calls `Moto_Cycle` for it. -/
def Kind.caller : Kind → Caller
  | .manual => .userMain2WinFun
  | .automatic => .lcdtoBackwash

/-! ### What has happened -/

/-- A change of the counter other than a reset. -/
def counts (k : Kind) : Op → Bool
  | .store v n => v == .counter k.counter && n != 0
  | _ => false

def zeroes (k : Kind) : Op → Bool
  | .store v n => v == .counter k.counter && n == 0
  | _ => false

def asks : Op → Bool
  | .store v _ => v == .jumptoAutomaticFlag
  | _ => false

/-- The display thread enters `Moto_Cycle`. -/
def enters : Thread → Op → Option Caller
  | .lcd, .mark (.motoCycle c) => some c
  | _, _ => none

/-- How often the counter was counted up. -/
def counted (k : Kind) : Trace → Nat
  | [] => 0
  | .began _ _ :: tr => counted k tr
  | .did _ o _ :: tr => if counts k o then counted k tr + 1 else counted k tr

def zeroed (k : Kind) : Trace → Bool
  | [] => false
  | .began _ _ :: tr => zeroed k tr
  | .did _ o _ :: tr => zeroes k o || zeroed k tr

/-- Who called `Moto_Cycle` last in the display thread. -/
def caller : Trace → Option Caller
  | [] => none
  | .began _ _ :: tr => caller tr
  | .did t o _ :: tr => (enters t o).orElse fun _ => caller tr

/-- The calls of `Moto_Cycle` by the display thread that posted `Forward`. -/
def accepted (k : Kind) : Trace → Nat
  | [] => 0
  | .began _ _ :: tr => accepted k tr
  | .did t o _ :: tr =>
    if t = .lcd ∧ o = .motoSend .forward ∧ caller tr = some k.caller then accepted k tr + 1 else accepted k tr

/-- The check thread is in `JumptoAutomatic`: it has counted and not yet asked. -/
def checking : Trace → Bool
  | [] => false
  | .began _ _ :: tr => checking tr
  | .did t o _ :: tr =>
    if t = .rtcCheck ∧ counts .automatic o then true else if t = .rtcCheck ∧ asks o then false else checking tr

/-- By how much a counter has grown since the start. -/
def increase (flash : Nat → Nat) (k : Kind) (s : Device) : Nat :=
  (s.vars (.counter k.counter) + 2 ^ 16 - (boot flash).vars (.counter k.counter)) % 2 ^ 16

/-- With no request open and the display thread between two passes, a counter that was not
reset has grown by the number of backwashes accepted. -/
def CountsBackwashes (flash : Nat → Nat) (cfg : Conf) : Prop :=
  cfg.state.vars .jumptoAutomaticFlag = 0 → cfg.task .lcd = none → ∀ k,
    zeroed k cfg.trace = false → counted k cfg.trace < 2 ^ 16 → increase flash k cfg.state = accepted k cfg.trace

/-- The display thread's calls of `Moto_Cycle` find the valve at rest and a supply, a request
finds none open, and the automatic counter is counted up from its present value. -/
def inTurn (t : Thread) (i : Input) (s : Device) : Op → Bool
  | .load .motoWorkFlag => t != .lcd || s.vars .motoWorkFlag == 0
  | .adcRead .dc => t != .lcd || decide (3000 < i.value)
  | .store .jumptoAutomaticFlag n => n == 0 || s.vars .jumptoAutomaticFlag == 0
  | .store (.counter .automatic) n => n == 0 || n == s.vars (.counter .automatic) + 1
  | _ => true

def CountedInTurn (cfg : Conf) : Act → Prop
  | .step t i => (cfg.head t).all (inTurn t i cfg.state) = true
  | .start _ _ => True

instance (cfg : Conf) : ∀ a, Decidable (CountedInTurn cfg a)
  | .step _ _ => instDecidableEqBool _ _
  | .start _ _ => instDecidableTrue

/-! ### The balance -/

/-- What the balance is about. -/
structure View where
  counted : Kind → Nat
  accepted : Kind → Nat
  value : Kind → Nat
  zeroed : Kind → Bool
  flag : Nat
  caller : Option Caller
  checking : Bool

def view (s : Device) (tr : Trace) : View where
  counted := fun k => Counters.counted k tr
  accepted := fun k => Counters.accepted k tr
  value := fun k => s.vars (.counter k.counter)
  zeroed := fun k => Counters.zeroed k tr
  flag := s.vars .jumptoAutomaticFlag
  caller := Counters.caller tr
  checking := Counters.checking tr

/-- What a thread owes: a backwash it has counted, in window 2 or in `JumptoAutomatic`, or
one whose request it has cleared; in between, what it has seen. -/
inductive Debt where
  | none
  | read (n : Nat)
  | manual
  | counted
  | saw
  | automatic
  | calling (c : Caller)
  deriving DecidableEq

def Debt.owes : Debt → Kind → Nat
  | .manual, .manual => 1
  | .counted, .automatic => 1
  | .automatic, .automatic => 1
  | .calling c, k => if c = k.caller then 1 else 0
  | _, _ => 0

/-- What the display thread knows. -/
def Debt.Knows (v : View) : Debt → Prop
  | .read n => v.value .manual = n
  | .saw => v.flag = 1
  | .calling c => v.caller = some c
  | _ => True

theorem Debt.Knows.congr {l : Debt} {v v' : View} (h : l.Knows v) (hvalue : v'.value .manual = v.value .manual)
    (hflag : v'.flag = v.flag) (hcaller : v'.caller = v.caller) : l.Knows v' := by
  cases l with
  | read n => exact hvalue.trans h
  | saw => exact hflag.trans h
  | calling c => exact hcaller.trans h
  | _ => trivial

/-- A request may be set while none is open. -/
theorem Debt.Knows.ask {l : Debt} {v : View} (h : l.Knows v) (hf : v.flag = 0) (n : Nat) (b : Bool) :
    l.Knows {v with flag := n, checking := b} := by
  cases l with
  | saw => exact absurd (hf.symm.trans h) (by decide)
  | _ => exact h

structure Owed (start : Kind → Nat) (l c : Debt) (v : View) : Prop where
  manual : v.counted .manual = v.accepted .manual + l.owes .manual
  automatic : v.counted .automatic = v.accepted .automatic + v.flag + l.owes .automatic + c.owes .automatic
  flag : v.flag ≤ 1
  knows : l.Knows v
  check : c = if v.checking = true then .counted else .none
  value : ∀ k, v.zeroed k = false → v.value k = (start k + v.counted k) % 2 ^ 16

namespace Owed
variable {start : Kind → Nat} {l c : Debt} {v : View}

theorem read (h : Owed start .none c v) : Owed start (.read (v.value .manual)) c v :=
  {h with manual := h.manual, automatic := h.automatic, knows := rfl}

theorem see (h : Owed start .none c v) (hf : v.flag = 1) : Owed start .saw c v :=
  {h with manual := h.manual, automatic := h.automatic, knows := hf}

/-- Window 2 counts a backwash. -/
theorem count_manual {n : Nat} (h : Owed start (.read n) c v) : Owed start .manual c
    {v with counted := Function.update v.counted .manual (v.counted .manual + 1)
            value := Function.update v.value .manual ((n + 1) % 2 ^ 16)} := by
  have hknows : v.value .manual = n := h.knows
  have hm := h.manual
  have ha := h.automatic
  refine ⟨?_, ?_, h.flag, trivial, h.check, fun k hk => ?_⟩
  · simp only [Function.update_self, Debt.owes] at hm ⊢
    omega
  · simpa [Debt.owes] using ha
  · have hv := h.value k hk
    cases k with
    | manual =>
      simp only [Function.update_self]
      omega
    | automatic => simpa using hv

/-- `JumptoAutomatic` counts a backwash, for the display thread or for the check thread. -/
theorem count_automatic {l' c' : Debt} {b : Bool} (h : Owed start l c v) (hl : l'.owes .manual = l.owes .manual)
    (hsum : l'.owes .automatic + c'.owes .automatic = l.owes .automatic + c.owes .automatic + 1) (hknows : l'.Knows v)
    (hcheck : c' = if b = true then .counted else .none) : Owed start l' c'
      {v with counted := Function.update v.counted .automatic (v.counted .automatic + 1)
              value := Function.update v.value .automatic ((v.value .automatic + 1) % 2 ^ 16), checking := b} := by
  have hm := h.manual
  have ha := h.automatic
  refine ⟨?_, ?_, h.flag, hknows.congr (by simp) rfl rfl, hcheck, fun k hk => ?_⟩
  · simpa [hl] using hm
  · simp only [Function.update_self]
    omega
  · have hv := h.value k hk
    cases k with
    | manual => simpa using hv
    | automatic =>
      simp only [Function.update_self]
      omega

/-- The request flag takes what was counted over. -/
theorem ask {l' c' : Debt} {b : Bool} (h : Owed start l c v) (hf : v.flag = 0) (hl : l'.owes .manual = l.owes .manual)
    (hsum : l'.owes .automatic + c'.owes .automatic + 1 = l.owes .automatic + c.owes .automatic)
    (hknows : l'.Knows {v with flag := 1, checking := b}) (hcheck : c' = if b = true then .counted else .none) :
    Owed start l' c' {v with flag := 1, checking := b} := by
  have hm := h.manual
  have ha := h.automatic
  refine ⟨by rw [hl]; exact hm, ?_, Nat.le_refl 1, hknows, hcheck, h.value⟩
  show v.counted .automatic = v.accepted .automatic + 1 + l'.owes .automatic + c'.owes .automatic
  omega

/-- The display thread takes a request over from the flag. -/
theorem clear (h : Owed start .saw c v) : Owed start .automatic c {v with flag := 0} := by
  have hf : v.flag = 1 := h.knows
  have ha := h.automatic
  refine ⟨h.manual, ?_, Nat.zero_le 1, trivial, h.check, h.value⟩
  simp only [Debt.owes, hf] at ha ⊢
  omega

/-- The display thread calls `Moto_Cycle` for what it owes. -/
theorem call (k : Kind) (h : Owed start l c v) (hl : ∀ k', l.owes k' = if k' = k then 1 else 0) :
    Owed start (.calling k.caller) c {v with caller := some k.caller} := by
  have hm := h.manual
  have ha := h.automatic
  rw [hl] at hm ha
  refine ⟨?_, ?_, h.flag, rfl, h.check, h.value⟩
  · cases k <;> simpa [Debt.owes, Kind.caller] using hm
  · cases k <;> simpa [Debt.owes, Kind.caller] using ha

/-- `Moto_Cycle` posts `Forward`. -/
theorem accept (k : Kind) (h : Owed start (.calling k.caller) c v) :
    Owed start .none c {v with accepted := Function.update v.accepted k (v.accepted k + 1)} := by
  have hm := h.manual
  have ha := h.automatic
  refine ⟨?_, ?_, h.flag, trivial, h.check, h.value⟩
  · cases k <;> simp [Debt.owes, Kind.caller] at hm ⊢ <;> omega
  · cases k <;> simp [Debt.owes, Kind.caller] at ha ⊢ <;> omega

/-- A counter is reset. -/
theorem zero (k : Kind) (h : Owed start .none c v) : Owed start .none c
    {v with zeroed := Function.update v.zeroed k true, value := Function.update v.value k 0} := by
  refine ⟨h.manual, h.automatic, h.flag, trivial, h.check, fun k' hk => ?_⟩
  by_cases hkk : k' = k
  · subst hkk
    simp at hk
  · simp only [Function.update_of_ne hkk] at hk ⊢
    exact h.value k' hk

end Owed

/-! ### One operation -/

/-- The operation is not about the balance. -/
def aside (t : Thread) : Op → Bool
  | .store v _ => match v with
    | .counter .manual | .counter .automatic | .jumptoAutomaticFlag => false
    | _ => true
  | .motoSend b => t != .lcd || b != .forward
  | .mark m => match m with
    | .motoCycle _ => t != .lcd
    | _ => true
  | _ => true

theorem aside_plain {t : Thread} {o : Op} (h : plainOp o = true) : aside t o = true := by
  cases o with
  | store v n =>
    cases v with
    | counter c => cases h
    | jumptoAutomaticFlag => cases h
    | _ => rfl
  | motoSend b => cases b <;> first | (cases h; done) | simp [aside]
  | mark m => cases m <;> first | rfl | cases h
  | _ => rfl

theorem aside_may {t : Thread} {o : Op} (ht : counting t = false) (h : may t o = true) : aside t o = true := by
  have hlcd : t ≠ .lcd := by rintro rfl; cases ht
  cases o with
  | store v n =>
    cases v with
    | counter c => cases t <;> first | (cases ht; done) | cases h
    | jumptoAutomaticFlag => cases t <;> first | (cases ht; done) | cases h
    | _ => rfl
  | motoSend b => simp [aside, hlcd]
  | mark m => cases m <;> first | rfl | simp [aside, hlcd]
  | _ => rfl

section
variable {t : Thread} {o : Op} {i : Input} {s : Device} {tr : Trace}

theorem view_aside (h : aside t o = true) : view (exec t o i s).1 (.did t o i :: tr) = view s tr := by
  have hcounts : ∀ k, counts k o = false := fun k => by
    cases o with
    | store v n =>
      cases v with
      | counter c => cases c <;> first | (cases h; done) | (cases k <;> rfl)
      | _ => cases k <;> rfl
    | _ => rfl
  have hzeroes : ∀ k, zeroes k o = false := fun k => by
    cases o with
    | store v n =>
      cases v with
      | counter c => cases c <;> first | (cases h; done) | (cases k <;> rfl)
      | _ => cases k <;> rfl
    | _ => rfl
  have hasks : asks o = false := by
    cases o with
    | store v n => cases v <;> first | rfl | cases h
    | _ => rfl
  have hsend : ¬ (t = .lcd ∧ o = .motoSend .forward) := by
    rintro ⟨rfl, rfl⟩
    cases h
  have henters : enters t o = none := by
    cases t <;> first | rfl | skip
    cases o with
    | mark m => cases m <;> first | rfl | cases h
    | _ => rfl
  have hvalue : ∀ k : Kind, (exec t o i s).1.vars (.counter k.counter) = s.vars (.counter k.counter) := fun k => by
    refine exec_vars (fun n e => ?_) (fun _ => by simp) (by simp) i
    subst e
    cases k <;> cases h
  have hflag : (exec t o i s).1.vars .jumptoAutomaticFlag = s.vars .jumptoAutomaticFlag := by
    refine exec_vars (fun n e => ?_) (fun _ => by simp) (by simp) i
    subst e
    cases h
  have haccepted : ∀ k, accepted k (.did t o i :: tr) = accepted k tr := fun k =>
    if_neg fun e => hsend ⟨e.1, e.2.1⟩
  rw [view, view, View.mk.injEq]
  refine ⟨?_, ?_, ?_, ?_, hflag, ?_, ?_⟩
  · funext k
    simp [counted, hcounts]
  · funext k
    exact haccepted k
  · funext k
    exact hvalue k
  · funext k
    simp [zeroed, hzeroes]
  · simp [caller, henters]
  · simp [checking, hcounts, hasks]

/-- A counter is counted up or reset. -/
theorem view_store (k : Kind) (n : Nat) :
    view (s.store (.counter k.counter) n) (.did t (.store (.counter k.counter) n) i :: tr) =
      {view s tr with
        counted := if n = 0 then (view s tr).counted else Function.update (view s tr).counted k ((view s tr).counted k + 1)
        value := Function.update (view s tr).value k (n % 2 ^ 16)
        zeroed := if n = 0 then Function.update (view s tr).zeroed k true else (view s tr).zeroed
        checking := if t = .rtcCheck ∧ k = .automatic ∧ n ≠ 0 then true else (view s tr).checking} := by
  rw [view, view, View.mk.injEq]
  refine ⟨?_, ?_, ?_, ?_, ?_, ?_, ?_⟩
  · funext k'
    cases k <;> cases k' <;> by_cases hn : n = 0 <;> simp [counted, counts, hn, Kind.counter]
  · funext k'
    simp [accepted]
  · funext k'
    cases k <;> cases k' <;> simp [Device.store, Var.width, Kind.counter]
  · funext k'
    cases k <;> cases k' <;> by_cases hn : n = 0 <;> simp [zeroed, zeroes, hn, Kind.counter]
  · simp [Device.store]
  · cases t <;> rfl
  · cases k <;> by_cases hn : n = 0 <;> simp [checking, counts, asks, hn, Kind.counter]

/-- The request flag is set or cleared. -/
theorem view_flag (n : Nat) (hn : n < 2 ^ 8) :
    view (s.store .jumptoAutomaticFlag n) (.did t (.store .jumptoAutomaticFlag n) i :: tr) =
      {view s tr with flag := n, checking := if t = .rtcCheck then false else (view s tr).checking} := by
  rw [view, view, View.mk.injEq]
  refine ⟨?_, ?_, ?_, ?_, ?_, ?_, ?_⟩
  · funext k
    simp [counted, counts]
  · funext k
    simp [accepted]
  · funext k
    simp [Device.store]
  · funext k
    simp [zeroed, zeroes]
  · simpa [Device.store, Var.width] using hn
  · cases t <;> rfl
  · simp [checking, counts, asks]

theorem view_enter (c : Caller) :
    view s (.did .lcd (.mark (.motoCycle c)) i :: tr) = {view s tr with caller := some c} := by
  rw [view, view, View.mk.injEq]
  refine ⟨rfl, ?_, rfl, rfl, rfl, rfl, rfl⟩
  funext k
  simp [accepted]

theorem view_forward {k : Kind} (h : (view s tr).caller = some k.caller) :
    view (exec .lcd (.motoSend .forward) i s).1 (.did .lcd (.motoSend .forward) i :: tr) =
      {view s tr with accepted := Function.update (view s tr).accepted k ((view s tr).accepted k + 1)} := by
  have hcaller : caller tr = some k.caller := h
  rw [view, view, View.mk.injEq]
  refine ⟨rfl, ?_, rfl, rfl, rfl, rfl, rfl⟩
  funext k'
  cases k <;> cases k' <;> simp [accepted, hcaller, Kind.caller]

theorem view_began (c : Call) : view (enter c s) (.began t c :: tr) = view s tr := by
  rw [view, view, View.mk.injEq]
  refine ⟨rfl, rfl, ?_, rfl, ?_, rfl, rfl⟩
  · funext k
    exact enter_vars (fun _ => by simp) (by simp) c s
  · exact enter_vars (fun _ => by simp) (by simp) c s

end

/-! ### The display thread and the check thread -/

def balance (start : Kind → Nat) (depth : Nat) : Protocol (board windowCalls depth) Debt where
  Rule := CountedInTurn
  Inv := fun gs s tr => Owed start (gs .lcd) (gs .rtcCheck) (view s tr)
  At := fun _ c g => c = none → g = .none

section
variable {start : Kind → Nat} {depth : Nat} {t : Thread} {x : Call} {l : Debt}

theorem at_balance (l : Debt) : (balance start depth).At t (some x) l := fun e => nomatch e

theorem aside_keeps {o : Op} (h : aside t o = true) : (balance start depth).Keeps t x l o := by
  intro cfg gs i _ _ _ hold _
  have hinv : Owed start (gs .lcd) (gs .rtcCheck) (view cfg.state cfg.trace) := hold.1
  show Owed start (gs .lcd) (gs .rtcCheck) (view (exec t o i cfg.state).1 (.did t o i :: cfg.trace))
  rw [view_aside h]
  exact hinv

theorem balance_aside {α : Type} {p : Code α} (hp : p.All fun o => aside t o = true) :
    (balance start depth).Outline t x p l fun _ y => y = l :=
  Outline.keep (at_balance l) (hp.mono fun _ ho => aside_keeps ho) fun _ => rfl

theorem balance_perform {o : Op} (h : aside t o = true) :
    (balance start depth).Outline t x (perform o) l fun _ y => y = l :=
  balance_aside (All.perform h)

theorem all_flashSet (id n : Nat) : (flashSet id n).All fun o => aside t o = true :=
  All.bind (All.perform rfl) fun _ => All.bind (All.perform rfl) fun _ => All.perform rfl

/-- The rule at an operation of a thread. -/
theorem inTurn_head {cfg : Conf} {o : Op} {i : Input} (h : CountedInTurn cfg (.step t i)) (ho : cfg.head t = some o) :
    inTurn t i cfg.state o = true := by
  have hall : (cfg.head t).all (inTurn t i cfg.state) = true := h
  rw [ho] at hall
  exact hall

/-- The other counters. -/
theorem balance_countUp {c : Counter} (hc : c ≠ .manual) (ha : c ≠ .automatic) (id : Nat) :
    (balance start depth).Outline t x (countUp c id) l fun _ y => y = l := by
  refine balance_aside ?_
  have hstore : ∀ n, aside t (.store (.counter c) n) = true := fun n => by
    cases c <;> first | rfl | exact absurd rfl hc | exact absurd rfl ha
  exact All.bind (All.perform rfl) fun n => All.bind (All.perform (hstore (n + 1))) fun _ =>
    All.bind (All.perform rfl) fun v => all_flashSet id v

/-- `JumptoAutomatic`, for a thread of the balance. -/
theorem balance_jump (ht : t = .lcd ∨ t = .rtcCheck) :
    (balance start depth).Outline t x jumptoAutomatic .none fun _ y => y = .none := by
  refine (balance_perform rfl).seq fun _ => Outline.seq (m := .counted) ?_ fun _ => ?_
  · refine (balance_perform rfl).seq fun (n : Nat) => Outline.seq (m := .counted) ?_ fun _ =>
      (balance_perform rfl).seq fun (v : Nat) => balance_aside (all_flashSet 9 v)
    refine Outline.move (at_balance _) (fun cfg gs i _ hhead hg hold hr => ?_) fun _ => rfl
    have hinv : Owed start (gs .lcd) (gs .rtcCheck) (view cfg.state cfg.trace) := hold.1
    have hn : n = (view cfg.state cfg.trace).value .automatic := by
      have := inTurn_head hr hhead
      simp only [inTurn, Bool.or_eq_true, beq_iff_eq] at this
      exact Nat.succ.inj (this.resolve_left (by omega))
    show Owed start _ _ (view (cfg.state.store (.counter Kind.automatic.counter) (n + 1))
      (.did t (.store (.counter Kind.automatic.counter) (n + 1)) i :: cfg.trace))
    rw [view_store, hn]
    simp only [Nat.add_one_ne_zero, if_false, ne_eq, not_false_eq_true, and_true]
    rcases ht with rfl | rfl
    · rw [Function.update_self, Function.update_of_ne (by decide), if_neg (by decide)]
      exact hinv.count_automatic (by rw [hg]; rfl) (by rw [hg]; simp only [Debt.owes]; omega) trivial hinv.check
    · rw [Function.update_self, Function.update_of_ne (by decide), if_pos rfl]
      exact hinv.count_automatic rfl (by rw [hg]; rfl) hinv.knows rfl
  · refine Outline.move (at_balance _) (fun cfg gs i _ hhead hg hold hr => ?_) fun _ => rfl
    have hinv : Owed start (gs .lcd) (gs .rtcCheck) (view cfg.state cfg.trace) := hold.1
    have hflag : (view cfg.state cfg.trace).flag = 0 := by
      have := inTurn_head hr hhead
      simp only [inTurn, Bool.or_eq_true, beq_iff_eq] at this
      exact this.resolve_left (by decide)
    show Owed start _ _ (view (cfg.state.store .jumptoAutomaticFlag 1) _)
    rw [view_flag 1 (by decide)]
    rcases ht with rfl | rfl
    · rw [Function.update_self, Function.update_of_ne (by decide), if_neg (by decide)]
      exact hinv.ask hflag (by rw [hg]; rfl) (by rw [hg]; simp only [Debt.owes]; omega) trivial hinv.check
    · rw [Function.update_self, Function.update_of_ne (by decide), if_pos rfl]
      exact hinv.ask hflag rfl (by rw [hg]; rfl) (hinv.knows.ask hflag 1 false) rfl

/-! ### The display thread -/

/-- The display thread writes its mark alone. -/
theorem owed_lcd {gs : Thread → Debt} {m : Debt} {v : View} (h : Owed start m (gs .rtcCheck) v) :
    Owed start (Function.update gs .lcd m .lcd) (Function.update gs .lcd m .rtcCheck) v := by
  rw [Function.update_self, Function.update_of_ne (by decide)]
  exact h

/-- Window 2 counts a backwash. -/
theorem balance_count_manual :
    (balance start depth).Outline .lcd x (countUp .manual 8) .none fun _ y => y = .manual := by
  refine Outline.bind (R := fun (n : Nat) y => y = .read n) ?_ fun (n : Nat) g hg => ?_
  · refine Outline.perform fun cfg gs i _ _ hg hold _ => ⟨_, at_balance _, owed_lcd ?_, rfl⟩
    have hinv : Owed start (gs .lcd) (gs .rtcCheck) (view cfg.state cfg.trace) := hold.1
    rw [hg] at hinv
    have hview : view (exec .lcd (.load (.counter .manual)) i cfg.state).1
        (.did .lcd (.load (.counter .manual)) i :: cfg.trace) = view cfg.state cfg.trace := view_aside rfl
    rw [board_exec, hview]
    exact hinv.read
  · subst hg
    refine Outline.seq (m := .manual) ?_ fun _ =>
      (balance_perform rfl).seq fun (v : Nat) => balance_aside (all_flashSet 8 v)
    refine Outline.move (at_balance _) (fun cfg gs i _ _ hg hold _ => owed_lcd ?_) fun _ => rfl
    have hinv : Owed start (gs .lcd) (gs .rtcCheck) (view cfg.state cfg.trace) := hold.1
    rw [hg] at hinv
    show Owed start _ _ (view (cfg.state.store (.counter Kind.manual.counter) (n + 1))
      (.did .lcd (.store (.counter Kind.manual.counter) (n + 1)) i :: cfg.trace))
    rw [view_store]
    simpa using hinv.count_manual

/-- A call of `Moto_Cycle` in turn is accepted. -/
theorem balance_motoCycle (k : Kind) (hl : ∀ k', l.owes k' = if k' = k then 1 else 0) :
    (balance start depth).Outline .lcd x (motoCycle k.caller) l fun _ y => y = .none := by
  refine Outline.seq (m := .calling k.caller) ?_ fun _ => ?_
  · refine Outline.move (at_balance _) (fun cfg gs i _ _ hg hold _ => owed_lcd ?_) fun _ => rfl
    have hinv : Owed start (gs .lcd) (gs .rtcCheck) (view cfg.state cfg.trace) := hold.1
    rw [hg] at hinv
    show Owed start _ _ (view cfg.state (.did .lcd (.mark (.motoCycle k.caller)) i :: cfg.trace))
    rw [view_enter]
    exact hinv.call k hl
  refine (balance_aside (All.bind (All.perform rfl) fun _ => All.perform rfl)).seq fun _ => ?_
  refine Outline.bind (R := fun (b : Bool) y => b = true ∧ y = .calling k.caller) ?_ ?_
  · refine (balance_perform rfl).seq fun (low : Nat) => Outline.ite (fun _ => ⟨rfl, rfl⟩) fun _ => ?_
    refine Outline.bind (R := fun (dc : Nat) y => dc = 1 ∧ y = .calling k.caller) ?_ ?_
    · refine Outline.bind (R := fun (v : Nat) y => 3000 < v ∧ y = .calling k.caller) ?_ ?_
      · refine Outline.perform fun cfg gs i hcall hhead hg hold hr => ⟨.calling k.caller, at_balance _, ?_, ?_, rfl⟩
        · rw [← hg, Function.update_eq_self]
          exact aside_keeps (x := x) rfl cfg gs i hcall hhead rfl hold hr
        · show 3000 < i.value
          simpa [inTurn] using inTurn_head hr hhead
      · rintro v g ⟨hv, rfl⟩
        exact ⟨if_pos hv, rfl⟩
    · rintro dc g ⟨rfl, rfl⟩
      exact ⟨rfl, rfl⟩
  · rintro b g ⟨rfl, rfl⟩
    rw [if_pos rfl]
    refine Outline.bind (R := fun (w : Nat) y => w = 0 ∧ y = .calling k.caller) ?_ ?_
    · refine Outline.perform fun cfg gs i hcall hhead hg hold hr => ⟨.calling k.caller, at_balance _, ?_, ?_, rfl⟩
      · rw [← hg, Function.update_eq_self]
        exact aside_keeps (x := x) rfl cfg gs i hcall hhead rfl hold hr
      · show cfg.state.vars .motoWorkFlag = 0
        simpa [inTurn] using inTurn_head hr hhead
    · rintro w g ⟨rfl, rfl⟩
      refine Outline.when (fun _ => ?_) fun hw => absurd rfl hw
      refine (balance_aside (All.bind (All.perform rfl) fun _ => All.perform rfl)).seq fun _ => ?_
      refine Outline.seq (m := .none) ?_ fun _ => balance_aside ?_
      · refine Outline.move (at_balance _) (fun cfg gs i _ _ hg hold _ => owed_lcd ?_) fun _ => rfl
        have hinv : Owed start (gs .lcd) (gs .rtcCheck) (view cfg.state cfg.trace) := hold.1
        rw [hg] at hinv
        have hcaller : (view cfg.state cfg.trace).caller = some k.caller := hinv.knows
        rw [board_exec, view_forward hcaller]
        exact hinv.accept k
      · exact All.bind (All.perform rfl) fun _ => All.bind (All.perform rfl) fun _ => All.bind (All.perform rfl) fun _ =>
          All.bind (All.perform rfl) fun _ => All.perform rfl

theorem balance_requestManual : (balance start depth).Outline .lcd x requestManual .none fun _ y => y = .none := by
  refine balance_count_manual.seq fun _ => Outline.seq (m := .none) ?_ fun _ => balance_perform rfl
  exact balance_motoCycle .manual fun k => by cases k <;> rfl

theorem balance_openLcdDisplay : (balance start depth).Outline .lcd x openLcdDisplay l fun _ y => y = l :=
  built_openLcdDisplay Outline.compositional fun _ ho => balance_perform (aside_plain (plainOp_openMay ho))

/-- A request is cleared before it is served. -/
theorem balance_serveAutomatic : (balance start depth).Outline .lcd x serveAutomatic .none fun _ y => y = .none := by
  refine Outline.bind (R := fun (f : Nat) y => y = if f = 1 then .saw else .none) ?_ fun (f : Nat) g hg => ?_
  · refine Outline.perform fun cfg gs i _ _ hg hold _ => ⟨_, at_balance _, owed_lcd ?_, rfl⟩
    have hinv : Owed start (gs .lcd) (gs .rtcCheck) (view cfg.state cfg.trace) := hold.1
    rw [hg] at hinv
    have hview : view (exec .lcd (.load .jumptoAutomaticFlag) i cfg.state).1
        (.did .lcd (.load .jumptoAutomaticFlag) i :: cfg.trace) = view cfg.state cfg.trace := view_aside rfl
    rw [board_exec, hview]
    split
    · next hf => exact hinv.see hf
    · exact hinv
  refine Outline.when (fun hf => ?_) fun hf => by rw [hg, if_neg hf]
  rw [if_pos hf] at hg
  subst hg
  refine Outline.seq (m := .automatic) ?_ fun _ => Outline.seq (m := .none) ?_ fun _ => balance_openLcdDisplay
  · refine Outline.move (at_balance _) (fun cfg gs i _ _ hg hold _ => owed_lcd ?_) fun _ => rfl
    have hinv : Owed start (gs .lcd) (gs .rtcCheck) (view cfg.state cfg.trace) := hold.1
    rw [hg] at hinv
    show Owed start _ _ (view (cfg.state.store .jumptoAutomaticFlag 0) _)
    rw [view_flag 0 (by decide)]
    exact hinv.clear
  · refine (balance_perform rfl).seq fun (f : Nat) => Outline.seq (m := .automatic) ?_ fun _ =>
      balance_motoCycle .automatic fun k => by cases k <;> rfl
    exact Outline.ite (fun _ => (balance_perform rfl).seq fun _ => balance_perform rfl) fun _ => balance_perform rfl

theorem balance_resetCounter (c : Counter) :
    (balance start depth).Outline .lcd x (resetCounter c) .none fun _ y => y = .none := by
  have hzero : ∀ k : Kind, (balance start depth).Outline .lcd x (store (.counter k.counter) 0) .none
      fun _ y => y = .none := fun k => by
    refine Outline.move (at_balance _) (fun cfg gs i _ _ hg hold _ => owed_lcd ?_) fun _ => rfl
    have hinv : Owed start (gs .lcd) (gs .rtcCheck) (view cfg.state cfg.trace) := hold.1
    rw [hg] at hinv
    show Owed start _ _ (view (cfg.state.store (.counter k.counter) 0) _)
    rw [view_store]
    simpa using hinv.zero k
  refine Outline.seq (m := .none) ?_ fun _ => (balance_aside (all_flashSet _ _)).seq fun _ => balance_perform rfl
  cases c with
  | manual => exact hzero .manual
  | automatic => exact hzero .automatic
  | deltapress => exact balance_perform rfl
  | error => exact balance_perform rfl

theorem balance_factoryReset : (balance start depth).Outline .lcd x factoryReset l fun _ y => y = l := by
  refine balance_aside (All.bind (All.bind (All.perform rfl) fun _ => (All.compositional _).foldr (fun n => ?_) _) fun _ =>
    All.perform rfl)
  exact all_flashSet n 0

theorem balance_counted :
    Counted fun {α} (p : Code α) => (balance start depth).Outline .lcd x p .none fun _ y => y = .none where
  error := balance_countUp (by decide) (by decide) 11
  press := balance_countUp (by decide) (by decide) 10
  jump := balance_jump (.inl rfl)
  manual := balance_requestManual
  serve := balance_serveAutomatic
  reset := balance_resetCounter
  factory := balance_factoryReset
  op := fun _ h => balance_perform (aside_plain h)

end

/-! ### Every run -/

theorem balance_begins (start : Kind → Nat) (depth : Nat) (c : Call) (hc : windowCalls c = true) :
    (balance start depth).Begins c.thread c := by
  refine begins_outline (g := .none) (fun _ h => h rfl) (at_balance _) (fun cfg gs hold _ _ _ => ?_) ?_
  · have hinv : Owed start (gs .lcd) (gs .rtcCheck) (view cfg.state cfg.trace) := hold.1
    show Owed start (gs .lcd) (gs .rtcCheck) (view (enter c cfg.state) (.began c.thread c :: cfg.trace))
    rw [view_began]
    exact hinv
  · have hop : ∀ t o, plainOp o = true → (balance start depth).Outline t c (perform o) .none fun _ y => y = .none :=
      fun _ _ h => balance_perform (aside_plain h)
    have herror : ∀ t, (balance start depth).Outline t c (countUp .error 11) .none fun _ y => y = .none :=
      fun _ => balance_countUp (by decide) (by decide) 11
    have hbody : (balance start depth).Outline c.thread c (body depth c) .none fun _ y => y = .none := by
      by_cases hcount : counting c.thread = true
      · cases c with
        | motoEntry => exact counted_motoEntry Outline.compositional (hop _) (herror _)
        | expire y => exact counted_timerCallback Outline.compositional (hop _) (herror _) y
        | expireSemJump => exact hop _ (.semRelease .k2) rfl
        | enterLowPower => exact counted_enterLowPower Outline.compositional (hop _)
        | rtcCheck => exact counted_rtcCheckCallback Outline.compositional (hop _) (balance_jump (.inr rfl))
        | lcdTask => exact counted_lcdTaskEntry Outline.compositional balance_counted depth
        | scheduleSave k => exact counted_scheduleSave Outline.compositional (hop _) k
        | motoCycle k => cases hc
        | _ => cases hcount
      · exact balance_aside ((body_may depth c).mono fun o ho => aside_may (by simpa using hcount) ho)
    exact hbody.mono fun _ _ e _ => e

/-- A counter that was not reset has grown by the backwashes accepted, in every run whose
requests are in turn, while the check thread is not between its count and its request. -/
theorem counts_backwashes (depth : Nat) (flash : Nat → Nat) (as : List Act)
    (h : (board windowCalls depth).Admits CountedInTurn (start flash) as)
    (hcheck : checking ((board windowCalls depth).run (start flash) as).trace = false) :
    CountsBackwashes flash ((board windowCalls depth).run (start flash) as) := by
  have hwidth : ∀ k : Kind, (boot flash).vars (.counter k.counter) < 2 ^ 16 := fun k => boot_bounded flash _
  have hstart : (balance (fun k => (boot flash).vars (.counter k.counter)) depth).Good (fun _ => .none) (start flash) := by
    have hflag : (boot flash).vars .jumptoAutomaticFlag = 0 :=
      boot_vars (fun _ => rfl) (fun _ => by simp) (by decide) flash
    refine Good.boot ⟨rfl, ?_, ?_, trivial, rfl, fun k _ => ?_⟩ fun _ _ => rfl
    · simp only [view, hflag]
      rfl
    · simp only [view, hflag]
      omega
    · exact (Nat.mod_eq_of_lt (hwidth k)).symm
  obtain ⟨gs, hgood⟩ := run_good (begins_board (balance_begins _ depth)) hstart h
  generalize (board windowCalls depth).run (start flash) as = cfg at hgood hcheck
  intro hflag hidle k hzeroed hlt
  have hinv : Owed (fun k => (boot flash).vars (.counter k.counter)) (gs .lcd) (gs .rtcCheck) (view cfg.state cfg.trace) :=
    hgood.1
  have hl : gs .lcd = .none := hgood.idle hidle rfl
  have hc : gs .rtcCheck = .none := by
    refine hinv.check.trans (if_neg ?_)
    rw [show (view cfg.state cfg.trace).checking = false from hcheck]
    exact Bool.false_ne_true
  rw [hl, hc] at hinv
  have hbalance : counted k cfg.trace = accepted k cfg.trace := by
    cases k with
    | manual => exact hinv.manual
    | automatic =>
      have ha := hinv.automatic
      rw [show (view cfg.state cfg.trace).flag = 0 from hflag] at ha
      exact ha
  have hvalue : cfg.state.vars (.counter k.counter) =
      ((boot flash).vars (.counter k.counter) + counted k cfg.trace) % 2 ^ 16 := hinv.value k hzeroed
  have := hwidth k
  unfold increase
  omega

theorem counts_backwashes_byHand :
    (board windowCalls 2).Admits CountedInTurn (start fun _ => 0) byHand ∧
    CountsBackwashes (fun _ => 0) ((board windowCalls 2).run (start fun _ => 0) byHand) := by
  have hadmits : (board windowCalls 2).Admits CountedInTurn (start fun _ => 0) byHand := by decide +kernel
  exact ⟨hadmits, counts_backwashes 2 (fun _ => 0) byHand hadmits (by decide +kernel)⟩

/-- The battery is empty when K2 is pressed in window 2: the backwash is counted and refused. -/
theorem counts_backwashes_refused :
    ¬ CountsBackwashes (fun _ => 0) ((board windowCalls 2).run (start fun _ => 0)
      (lcdPass ++ press .k2 ++ lcdPass ++ lcdPass ++ batteryReads 2000 ++ press .k2 ++ lcdPass)) := by
  intro h
  have hidle : ((board windowCalls 2).run (start fun _ => 0)
      (lcdPass ++ press .k2 ++ lcdPass ++ lcdPass ++ batteryReads 2000 ++ press .k2 ++ lcdPass)).task .lcd = none := by
    rw [← Option.isNone_iff_eq_none]
    decide +kernel
  exact absurd (h (by decide +kernel) hidle .manual (by decide +kernel) (by decide +kernel)) (by decide +kernel)

end Backwash.Counters
