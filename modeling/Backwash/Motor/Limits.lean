import Backwash.Concurrent.Owner
import Backwash.Motor.Commands

/-! What stops the valve: the two limit switches and the overload.

All three lower the bridge inputs in the pass that notices them, and the same pass
then receives whatever has been posted meanwhile. The right limit and the overload
post `Free` first, so that no command is received alone; the left limit does not. -/
namespace Backwash.Motor
open Concurrent Prog Firmware

/-! ### What a pass has found -/

/-- The bits posted since the last receive. -/
def pendingBits : Trace → MotoBits
  | [] => .empty
  | .did _ (.motoSend b) _ :: tr => (pendingBits tr).send b
  | .did _ .motoRecv _ :: _ => .empty
  | _ :: tr => pendingBits tr

/-- The value of `MotoWorkFlag`, as it was stored last. -/
def workFlag : Trace → Nat
  | [] => 0
  | .did _ (.store .motoWorkFlag n) _ :: _ => n % 2 ^ Var.motoWorkFlag.width
  | _ :: tr => workFlag tr

/-- What the motor's present pass has read: a limit switch closed in the direction
of travel, the motor current (with the commands it had by then), the commands, and
the left switch once it had them. -/
structure Findings where
  right : Bool := false
  left : Bool := false
  measured : Option (Option MotoBits) := none
  got : Option MotoBits := none
  leftOpen : Bool := false
  deriving DecidableEq

def Findings.after (f : Findings) (o : Op) (i : Input) (work : Nat) (bits : MotoBits) : Findings :=
  match o with
  | .pinRead .motoRight => {f with right := f.right || (f.got.isNone && !i.level && work == 1)}
  | .pinRead .motoLeft =>
    {f with left := f.left || (f.got.isNone && !i.level && work == 2), leftOpen := f.got.isSome && i.level}
  | .adcRead .moto => {f with measured := some f.got}
  | .motoRecv => {f with got := some bits}
  | _ => f

def findings : Trace → Findings
  | [] => {}
  | .began t _ :: tr => if t = .motor then {} else findings tr
  | .did t o i :: tr =>
    if t = .motor then (findings tr).after o i (workFlag tr) (pendingBits tr) else findings tr

/-- An overload was handled, and no `Forward` and no `Back` has been received after
the receive of its pass. -/
def halted : Trace → Bool
  | [] => false
  | .did _ .motoRecv _ :: tr =>
    overloaded tr || (halted tr && !(pendingBits tr).forward && !(pendingBits tr).back)
  | _ :: tr => halted tr

/-! ### The properties -/

/-- Both bridge inputs are low. -/
def Low (s : Device) : Prop := s.pins .motoIn1 = false ∧ s.pins .motoIn2 = false

instance (s : Device) : Decidable (Low s) := inferInstanceAs (Decidable (_ ∧ _))

/-- A pass that measures an overload ends with the valve stopped and what was posted
up to its receive consumed; the valve stays stopped until a `Forward` or `Back`
posted later is received. -/
def OverloadStops (cfg : Conf) : Prop :=
  (cfg.task .motor = none → overloaded cfg.trace = true →
    Low cfg.state ∧ cfg.state.vars .motoWorkFlag = 0 ∧ (findings cfg.trace).got ≠ none ∧
      cfg.state.moto = pendingBits cfg.trace) ∧
  (halted cfg.trace = true → Low cfg.state)

/-- A pass that finds the right switch closed in forward travel ends with the valve
stopped. One that finds the left switch closed in return travel has stopped it when
it goes on to the motor current, and ends with the valve driven back only if it
received `Back` alone and then read the switch open. -/
def LimitsStop (cfg : Conf) : Prop :=
  (cfg.task .motor = none → (findings cfg.trace).right = true → Low cfg.state ∧ cfg.state.vars .motoWorkFlag = 0) ∧
  (cfg.head .motor = some (.adcRead .moto) → (findings cfg.trace).left = true → Low cfg.state) ∧
  (cfg.task .motor = none → (findings cfg.trace).left = true → cfg.state.pins .motoIn1 = true →
    (findings cfg.trace).got = some (.only .back) ∧ (findings cfg.trace).leftOpen = true)

/-! ### The motor thread's view -/

/-- What the motor thread knows: the inputs as far as others have not lowered them,
the variables that are its own, whether `Free` is surely pending, and its pass. -/
structure Pass where
  in1 : Bool
  in2 : Bool
  work : Nat
  leftStatus : Nat
  rightStatus : Nat
  free : Bool
  overload : Bool
  halted : Bool
  found : Findings

namespace Pass

def after : (o : Op) → Res o → Pass → Pass
  | .store .motoWorkFlag n, _, x => {x with work := n % 2 ^ 8}
  | .store .leftStatus n, _, x => {x with leftStatus := n % 2 ^ 8}
  | .store .rightStatus n, _, x => {x with rightStatus := n % 2 ^ 8}
  | .pinWrite .motoIn1 b, _, x => {x with in1 := b}
  | .pinWrite .motoIn2 b, _, x => {x with in2 := b}
  | .motoSend .free, _, x => {x with free := true}
  | .pinRead .motoRight, r, x => {x with found := x.found.after (.pinRead .motoRight) ⟨r, 0⟩ x.work .empty}
  | .pinRead .motoLeft, r, x => {x with found := x.found.after (.pinRead .motoLeft) ⟨r, 0⟩ x.work .empty}
  | .adcRead .moto, r, x => {x with overload := decide (r > 200) || x.overload, found.measured := some x.found.got}
  | .motoRecv, r, x =>
    {x with free := false, found.got := some r, halted := x.overload || (x.halted && !r.forward && !r.back)}
  | _, _, x => x

def can : (o : Op) → Pass → Res o → Prop
  | .load .motoWorkFlag, x, r => r = x.work
  | .load .leftStatus, x, r => r = x.leftStatus
  | .load .rightStatus, x, r => r = x.rightStatus
  | .motoRecv, x, r => x.free = true → r.free = true
  | _, _, _ => True

/-- The inputs are low and the flag is clear. -/
def Stopped (x : Pass) : Prop := x.in1 = false ∧ x.in2 = false ∧ x.work = 0

structure Safe (x : Pass) : Prop where
  halted : x.halted = true → x.Stopped
  order : ∀ e, x.found.measured = some e → e = none
  left : x.found.measured ≠ none → x.found.left = true → x.found.got = none → x.in1 = false ∧ x.in2 = false

structure Rest (x : Pass) : Prop where
  stopped : x.overload = true ∨ x.found.right = true → x.Stopped
  overload : x.overload = true → x.found.got ≠ none
  left : x.found.left = true → x.in1 = true → x.found.got = some (.only .back) ∧ x.found.leftOpen = true

structure Sees (x : Pass) (s : Device) (tr : Trace) : Prop where
  in1 : s.pins .motoIn1 = true → x.in1 = true
  in2 : s.pins .motoIn2 = true → x.in2 = true
  work : s.vars .motoWorkFlag = x.work
  leftStatus : s.vars .leftStatus = x.leftStatus
  rightStatus : s.vars .rightStatus = x.rightStatus
  free : x.free = true → s.moto.free = true
  overload : overloaded tr = x.overload
  halted : Motor.halted tr = x.halted
  found : findings tr = x.found
  bits : s.moto = pendingBits tr
  flag : workFlag tr = x.work

/-- A pass begins with nothing found. -/
def first (x : Pass) : Pass := {x with overload := false, found := {}}

/-! ### What an operation does to the view -/

section
variable {t : Thread} {o : Op} {i : Input} {s s' : Device} {tr : Trace} {x : Pass}

/-- The operation concerns neither the bridge nor the bits nor what a pass finds. -/
def aside : Op → Bool
  | .store v _ => v != .motoWorkFlag && v != .leftStatus && v != .rightStatus
  | .pinWrite p _ => p != .motoIn1 && p != .motoIn2
  | .motoSend _ | .motoRecv | .pinRead _ => false
  | .adcRead c => c != .moto
  | _ => true

theorem after_aside (h : aside o = true) (r : Res o) (x : Pass) : x.after o r = x := by
  cases o with
  | store v n => cases v <;> first | rfl | cases h
  | pinWrite p b => cases p <;> first | rfl | cases h
  | pinRead p => cases h
  | adcRead c => cases c <;> first | rfl | cases h
  | motoSend b => cases h
  | motoRecv => cases h
  | _ => rfl

theorem findings_after_aside (h : aside o = true) (f : Findings) (work : Nat) (bits : MotoBits) :
    f.after o i work bits = f := by
  cases o with
  | pinRead p => cases h
  | adcRead c => cases c <;> first | rfl | cases h
  | motoRecv => cases h
  | _ => rfl

/-- The history moves as the thread's operation says. -/
theorem Sees.history (h : Sees x s tr) (ho : aside o = true) :
    overloaded (.did t o i :: tr) = x.overload ∧ Motor.halted (.did t o i :: tr) = x.halted ∧
      findings (.did t o i :: tr) = x.found ∧ pendingBits (.did t o i :: tr) = pendingBits tr ∧
      workFlag (.did t o i :: tr) = x.work := by
  have hadc : (o == .adcRead .moto) = false := by cases o <;> simp_all [aside]
  refine ⟨?_, ?_, ?_, ?_, ?_⟩
  · simp [overloaded, hadc, h.overload]
  · rw [← h.halted]
    cases o <;> first | rfl | cases ho
  · rw [← h.found, findings, findings_after_aside ho, ite_self]
  · cases o <;> first | rfl | cases ho
  · rw [← h.flag]
    cases o with
    | store v n => cases v <;> first | rfl | cases ho
    | _ => rfl

/-- An operation that concerns none of it. -/
theorem Sees.aside (h : Sees x s tr) (ho : aside o = true) : Sees x (exec t o i s).1 (.did t o i :: tr) := by
  obtain ⟨hover, hhalted, hfound, hbits, hflag⟩ := h.history (t := t) (i := i) ho
  have hpin : ∀ p, p = .motoIn1 ∨ p = .motoIn2 → (exec t o i s).1.pins p = s.pins p := fun p hp =>
    exec_pins (fun b e => by rw [e] at ho; rcases hp with rfl | rfl <;> cases ho) i
  have hvar : ∀ v, v = .motoWorkFlag ∨ v = .leftStatus ∨ v = .rightStatus → (exec t o i s).1.vars v = s.vars v :=
    fun v hv => exec_vars (fun n e => by rw [e] at ho; rcases hv with rfl | rfl | rfl <;> cases ho)
      (fun w => by rcases hv with rfl | rfl | rfl <;> simp) (by rcases hv with rfl | rfl | rfl <;> decide) i
  have hmoto : (exec t o i s).1.moto = s.moto :=
    exec_moto (fun b e => by rw [e] at ho; cases ho) (fun e => by rw [e] at ho; cases ho) i
  refine ⟨?_, ?_, ?_, ?_, ?_, ?_, hover, hhalted, hfound, ?_, hflag⟩
  · rw [hpin _ (.inl rfl)]
    exact h.in1
  · rw [hpin _ (.inr rfl)]
    exact h.in2
  · rw [hvar _ (.inl rfl)]
    exact h.work
  · rw [hvar _ (.inr (.inl rfl))]
    exact h.leftStatus
  · rw [hvar _ (.inr (.inr rfl))]
    exact h.rightStatus
  · rw [hmoto]
    exact h.free
  · rw [hmoto, hbits]
    exact h.bits

theorem send_free (e : MotoBits) (b : MotoBit) (h : e.free = true) : (e.send b).free = true := by
  cases b <;> first | rfl | exact h

/-- A post, from any thread. -/
theorem Sees.post (h : Sees x s tr) (b : MotoBit) :
    Sees x (exec t (.motoSend b) i s).1 (.did t (.motoSend b) i :: tr) := by
  refine ⟨h.in1, h.in2, h.work, h.leftStatus, h.rightStatus, fun e => send_free _ _ (h.free e), ?_, h.halted, ?_, ?_,
    h.flag⟩
  · simp [overloaded, h.overload]
  · simp [findings, Findings.after, h.found]
  · show s.moto.send b = (pendingBits tr).send b
    rw [h.bits]

/-- Another thread may lower the inputs and post; it does nothing else here. -/
theorem Sees.other (h : Sees x s tr) (ht : t ≠ .motor) (hmay : may t o = true) :
    Sees x (exec t o i s).1 (.did t o i :: tr) := by
  by_cases ho : Pass.aside o = true
  · exact h.aside ho
  cases o with
  | motoSend b => exact h.post b
  | pinWrite p b =>
    have hp : p = .motoIn1 ∨ p = .motoIn2 := by simpa [Pass.aside, or_iff_not_imp_left] using ho
    have hlow : ∀ q, q = .motoIn1 ∨ q = .motoIn2 → (exec t (.pinWrite p b) i s).1.pins q = true → s.pins q = true := by
      intro q hq e
      by_contra hn
      have := bridge_lowered (i := i) hq ht hmay (by simpa using hn)
      rw [this] at e
      cases e
    refine ⟨fun e => h.in1 (hlow _ (.inl rfl) e), fun e => h.in2 (hlow _ (.inr rfl) e), h.work, h.leftStatus,
      h.rightStatus, h.free, ?_, h.halted, ?_, h.bits, h.flag⟩
    · simp [overloaded, h.overload]
    · simp [findings, ht, h.found]
  | pinRead p =>
    refine ⟨h.in1, h.in2, h.work, h.leftStatus, h.rightStatus, h.free, ?_, h.halted, ?_, h.bits, h.flag⟩
    · simp [overloaded, h.overload]
    · simp [findings, ht, h.found]
  | store v n =>
    cases v <;> cases t <;> first | exact absurd rfl ho | exact absurd rfl ht | cases hmay
  | adcRead c => cases c <;> cases t <;> first | exact absurd rfl ho | exact absurd rfl ht | cases hmay
  | motoRecv => cases t <;> first | exact absurd rfl ht | cases hmay
  | _ => exact absurd rfl ho

/-- The motor thread's own operations move its view. -/
theorem Sees.own (h : Sees x s tr) (hmay : may .motor o = true) :
    Sees (x.after o (exec .motor o i s).2) (exec .motor o i s).1 (.did .motor o i :: tr) := by
  by_cases ho : Pass.aside o = true
  · rw [after_aside ho]
    exact h.aside ho
  cases o with
  | store v n =>
    have hover : overloaded (.did .motor (.store v n) i :: tr) = x.overload := by simp [overloaded, h.overload]
    have hfound : findings (.did .motor (.store v n) i :: tr) = x.found := by simp [findings, Findings.after, h.found]
    have hv : v = .motoWorkFlag ∨ v = .leftStatus ∨ v = .rightStatus := by
      simpa [Pass.aside, or_iff_not_imp_left, and_imp] using ho
    rcases hv with rfl | rfl | rfl
    · exact ⟨h.in1, h.in2, rfl, h.leftStatus, h.rightStatus, h.free, hover, h.halted, hfound, h.bits, rfl⟩
    · exact ⟨h.in1, h.in2, h.work, rfl, h.rightStatus, h.free, hover, h.halted, hfound, h.bits, h.flag⟩
    · exact ⟨h.in1, h.in2, h.work, h.leftStatus, rfl, h.free, hover, h.halted, hfound, h.bits, h.flag⟩
  | pinWrite p b =>
    have hover : overloaded (.did .motor (.pinWrite p b) i :: tr) = x.overload := by simp [overloaded, h.overload]
    have hfound : findings (.did .motor (.pinWrite p b) i :: tr) = x.found := by
      simp [findings, Findings.after, h.found]
    have hp : p = .motoIn1 ∨ p = .motoIn2 := by simpa [Pass.aside, or_iff_not_imp_left] using ho
    rcases hp with rfl | rfl
    · exact ⟨id, h.in2, h.work, h.leftStatus, h.rightStatus, h.free, hover, h.halted, hfound, h.bits, h.flag⟩
    · exact ⟨h.in1, id, h.work, h.leftStatus, h.rightStatus, h.free, hover, h.halted, hfound, h.bits, h.flag⟩
  | motoSend b =>
    have hpost := h.post (t := .motor) (i := i) b
    cases b with
    | free => exact {hpost with free := fun _ => rfl}
    | _ => exact hpost
  | motoRecv =>
    refine ⟨h.in1, h.in2, h.work, h.leftStatus, h.rightStatus, nofun, ?_, ?_, ?_, rfl, h.flag⟩
    · simp [overloaded, h.overload, after]
    · simp [Motor.halted, after, exec, h.overload, h.halted, h.bits]
    · simp [findings, Findings.after, after, exec, h.found, h.bits]
  | pinRead p =>
    have hp : p = .motoLeft ∨ p = .motoRight := by
      cases p <;> first | exact .inl rfl | exact .inr rfl | cases hmay
    have hover : overloaded (.did .motor (.pinRead p) i :: tr) = x.overload := by simp [overloaded, h.overload]
    rcases hp with rfl | rfl
    · refine ⟨h.in1, h.in2, h.work, h.leftStatus, h.rightStatus, h.free, hover, h.halted, ?_, h.bits, h.flag⟩
      simp [findings, Findings.after, after, exec, h.found, h.flag]
    · refine ⟨h.in1, h.in2, h.work, h.leftStatus, h.rightStatus, h.free, hover, h.halted, ?_, h.bits, h.flag⟩
      simp [findings, Findings.after, after, exec, h.found, h.flag]
  | adcRead c =>
    obtain rfl : c = .moto := by simpa [Pass.aside] using ho
    refine ⟨h.in1, h.in2, h.work, h.leftStatus, h.rightStatus, h.free, ?_, h.halted, ?_, h.bits, h.flag⟩
    · simp [overloaded, after, exec, h.overload]
    · simp [findings, Findings.after, after, h.found]
  | _ => exact absurd rfl ho

theorem Sees.can (h : Sees x s tr) : x.can o (exec .motor o i s).2 := by
  cases o with
  | load v => cases v <;> first | exact trivial | exact h.work | exact h.leftStatus | exact h.rightStatus
  | motoRecv => exact h.free
  | _ => exact trivial

theorem Sees.began (h : Sees x s tr) {c : Call} (ht : t ≠ .motor) : Sees x (enter c s) (.began t c :: tr) := by
  have hmoto : (enter c s).moto = s.moto := by
    refine enter_keep (f := Device.moto) (fun _ _ _ => rfl) (fun _ _ => rfl) (fun _ _ => rfl) (fun o s ho => ?_) s
    rcases irq_cases ho with ⟨_, rfl⟩ | ⟨_, rfl⟩ | ⟨_, _, rfl⟩ | ⟨_, rfl⟩ | rfl <;> rfl
  refine ⟨?_, ?_, ?_, ?_, ?_, ?_, ?_, h.halted, ?_, ?_, h.flag⟩
  · rw [enter_pins]
    exact h.in1
  · rw [enter_pins]
    exact h.in2
  · rw [enter_motoWorkFlag]
    exact h.work
  · rw [enter_vars (by simp) (by decide)]
    exact h.leftStatus
  · rw [enter_vars (by simp) (by decide)]
    exact h.rightStatus
  · rw [hmoto]
    exact h.free
  · simp [overloaded, ht, h.overload]
  · simp [findings, ht, h.found]
  · rw [hmoto]
    exact h.bits

theorem Sees.begin (h : Sees x s tr) : Sees x.first s (.began .motor .motoEntry :: tr) :=
  ⟨h.in1, h.in2, h.work, h.leftStatus, h.rightStatus, h.free, rfl, h.halted, rfl, h.bits, h.flag⟩

end

end Pass

variable {allowed : Call → Bool} {depth : Nat}

/-- The motor thread and what it knows. -/
def pass (allowed : Call → Bool) (depth : Nat) : Owner (board allowed depth) Pass where
  can := Pass.can
  after := Pass.after
  Safe := Pass.Safe
  thread := .motor
  may := fun t o => may t o = true
  Rule := fun _ _ => True
  Sees := Pass.Sees
  Rest := Pass.Rest
  first := fun _ => Pass.first
  body_may := @ready_may allowed depth
  own := fun hmay _ _ hsees => ⟨hsees.can, hsees.own hmay⟩
  other := fun ht hmay _ _ hsees => hsees.other ht hmay
  begins := fun {cfg x c} hready _ _ hsafe hsees => by
    have hr : (.motor = c.thread ∧ allowed c = true) ∧ c.enabled cfg.state = true := by simpa [board] using hready
    obtain ⟨⟨ht, -⟩, -⟩ := hr
    obtain rfl : c = .motoEntry := by cases c <;> first | rfl | cases ht
    exact ⟨⟨hsafe.halted, fun _ e => (by cases e), fun e => absurd rfl e⟩, hsees.begin⟩
  begins_other := fun ht _ _ hsees => hsees.began ht

/-! ### A pass -/

section
variable {x : Pass} {α β : Type}

theorem run_aside {p : Code α} (hp : p.All fun o => Pass.aside o = true) (hs : x.Safe) :
    (pass allowed depth).Run p x fun _ y => y = x := by
  refine Sight.Run.all (D := fun y => y = x) (hp.mono fun o ho y r hy _ => ?_) rfl
  have hafter : y.after o r = x := by rw [Pass.after_aside ho, hy]
  exact ⟨show (y.after o r).Safe from hafter ▸ hs, hafter⟩

theorem run_skip {o : Op} {f : Res o → Code β} {Q : β → Pass → Prop} (ho : Pass.aside o = true) (hs : x.Safe)
    (hf : ∀ r, x.can o r → (pass allowed depth).Run (f r) x Q) : (pass allowed depth).Run (perform o >>= f) x Q := by
  refine Sight.Run.step fun r hr => ?_
  show (x.after o r).Safe ∧ (pass allowed depth).Run (f r) (x.after o r) Q
  rw [Pass.after_aside ho]
  exact ⟨hs, hf r hr⟩

/-- The pass is on its way to the motor current, with no overload of before to be
kept in mind. -/
structure Pass.Underway (x : Pass) : Prop where
  halted : x.halted = false
  measured : x.found.measured = none

theorem Pass.Underway.safe (h : x.Underway) : x.Safe :=
  ⟨fun e => absurd (h.halted.symm.trans e) Bool.false_ne_true, fun _ e => absurd (h.measured.symm.trans e) (by simp),
    fun e => absurd h.measured e⟩

/-- The valve is stopped and the flag cleared, in this order. -/
theorem run_stop {p : Code β} {Q : β → Pass → Prop} (hs : x.Safe)
    (hp : ({x with in1 := false, in2 := false, work := 0} : Pass).Safe →
      (pass allowed depth).Run p {x with in1 := false, in2 := false, work := 0} Q) :
    (pass allowed depth).Run (do
      pinWrite .motoIn1 false
      pinWrite .motoIn2 false
      store .motoWorkFlag 0
      p) x Q := by
  have h1 : ({x with in1 := false} : Pass).Safe :=
    ⟨fun e => ⟨rfl, (hs.halted e).2⟩, hs.order, fun e el eg => ⟨rfl, (hs.left e el eg).2⟩⟩
  have h2 : ({x with in1 := false, in2 := false} : Pass).Safe :=
    ⟨fun e => ⟨rfl, rfl, (hs.halted e).2.2⟩, hs.order, fun _ _ _ => ⟨rfl, rfl⟩⟩
  have h3 : ({x with in1 := false, in2 := false, work := 0} : Pass).Safe :=
    ⟨fun _ => ⟨rfl, rfl, rfl⟩, hs.order, fun _ _ _ => ⟨rfl, rfl⟩⟩
  exact Sight.Run.step fun _ _ => ⟨h1, Sight.Run.step fun _ _ => ⟨h2, Sight.Run.step fun _ _ => ⟨h3, hp h3⟩⟩⟩

theorem run_rightLimit (h : x.Underway) :
    (pass allowed depth).Run rightLimit x fun _ y =>
      y = {x with free := true, in1 := false, in2 := false, work := 0} := by
  have hfree : ({x with free := true} : Pass).Underway := ⟨h.halted, h.measured⟩
  refine Sight.Run.step fun _ _ => ⟨hfree.safe, run_stop hfree.safe fun hs => run_aside ?_ hs⟩
  exact All.bind (all_tdsWork rfl rfl rfl) fun _ => All.bind (All.perform rfl) fun _ =>
    All.bind (all_tdsWork rfl rfl rfl) fun _ => All.pure _

theorem run_leftLimit (h : x.Underway) :
    (pass allowed depth).Run leftLimit x fun _ y => y = {x with in1 := false, in2 := false, work := 0} := by
  refine run_stop h.safe fun hs => run_aside ?_ hs
  exact All.bind (all_screenTimerRefresh rfl rfl) fun _ => All.bind (All.perform rfl) fun _ =>
    All.bind (All.perform rfl) fun _ => All.ite (All.perform rfl) (All.perform rfl)

/-- `Moto_Free_Event_Release` has returned. -/
structure Pass.Released (x : Pass) : Prop where
  underway : x.Underway
  overload : x.overload = false
  got : x.found.got = none
  right : x.found.right = true → x.Stopped ∧ x.free = true
  left : x.found.left = true → x.in1 = false ∧ x.in2 = false

/-- Both switches read, in forward or return travel or at rest. -/
def Pass.read (x : Pass) (left right : Bool) : Pass :=
  {x with
    leftStatus := left.toNat
    rightStatus := right.toNat
    found := {right := !right && x.work == 1, left := !left && x.work == 2}}

theorem Pass.Underway.read (h : x.Underway) (left right : Bool) : (x.read left right).Underway := ⟨h.halted, rfl⟩

theorem run_readSwitches {p : Code β} {Q : β → Pass → Prop} (h : x.Underway) (hf : x.found = {})
    (hp : ∀ left right, (pass allowed depth).Run p (x.read left right) Q) :
    (pass allowed depth).Run (do
      let left ← pinRead .motoLeft
      store .leftStatus left.toNat
      let right ← pinRead .motoRight
      store .rightStatus right.toNat
      p) x Q := by
  refine Sight.Run.step fun (left : Bool) _ => ?_
  have h1 : x.after (.pinRead .motoLeft) left = {x with found := {left := !left && x.work == 2}} := by
    simp [Pass.after, Findings.after, hf]
  show (x.after (.pinRead .motoLeft) left).Safe ∧ (pass allowed depth).Run _ (x.after (.pinRead .motoLeft) left) Q
  rw [h1]
  refine ⟨Pass.Underway.safe ⟨h.halted, rfl⟩, Sight.Run.step fun _ _ => ⟨Pass.Underway.safe ⟨h.halted, rfl⟩, ?_⟩⟩
  refine Sight.Run.step fun (right : Bool) _ => ⟨Pass.Underway.safe ⟨h.halted, rfl⟩, ?_⟩
  refine Sight.Run.step fun _ _ => ⟨Pass.Underway.safe ⟨h.halted, rfl⟩, ?_⟩
  have h4 : (({x with found := {left := !left && x.work == 2}, leftStatus := left.toNat % 2 ^ 8} : Pass).after
      (.pinRead .motoRight) right).after (.store .rightStatus right.toNat) () = x.read left right := by
    cases left <;> cases right <;> rfl
  have hrest := hp left right
  rw [← h4] at hrest
  exact hrest

theorem run_motoFreeEventRelease (h : x.Underway) (hover : x.overload = false) (hf : x.found = {}) :
    (pass allowed depth).Run motoFreeEventRelease x fun _ y => y.Released := by
  refine run_readSwitches h hf fun left right => ?_
  have hy : (x.read left right).Underway := h.read left right
  refine run_skip rfl hy.safe fun (r : Nat) hr => run_skip rfl hy.safe fun (f : Nat) hw => ?_
  have hr' : r = right.toNat := hr
  have hw' : f = x.work := hw
  -- in forward travel with the right switch closed, else as it was
  refine Sight.Run.bind (R := fun _ z => z.Underway ∧ z.overload = false ∧ z.leftStatus = left.toNat ∧
      z.found = (x.read left right).found ∧ (z.found.right = true → z.Stopped ∧ z.free = true) ∧
      (z.work = x.work ∨ z.Stopped)) (Sight.Run.when (fun hc => ?_) fun hc => ?_) fun _ z hz => ?_
  · refine (run_rightLimit hy).mono fun _ z hz => ?_
    subst hz
    exact ⟨⟨hy.halted, hy.measured⟩, hover, rfl, rfl, fun _ => ⟨⟨rfl, rfl, rfl⟩, rfl⟩, .inr ⟨rfl, rfl, rfl⟩⟩
  · refine ⟨hy, hover, rfl, rfl, fun e => absurd ⟨?_, ?_⟩ hc, .inl rfl⟩
    · have : right = false := by simp [Pass.read] at e; exact e.1
      rw [hr', this]
      rfl
    · have : x.work = 1 := by simp [Pass.read] at e; exact e.2
      rw [hw', this]
  · obtain ⟨hz, hzover, hzleft, hzfound, hzright, hzwork⟩ := hz
    refine run_skip rfl hz.safe fun (l : Nat) hl => run_skip rfl hz.safe fun (f : Nat) hf => ?_
    have hl' : l = left.toNat := hl.trans hzleft
    have hf' : f = z.work := hf
    refine Sight.Run.when (fun hc => ?_) fun hc => ?_
    · refine (run_leftLimit hz).mono fun _ y hy => ?_
      subst hy
      refine ⟨⟨hz.halted, hz.measured⟩, hzover, by rw [hzfound]; rfl, fun e => ?_, fun _ => ⟨rfl, rfl⟩⟩
      exact ⟨⟨rfl, rfl, rfl⟩, (hzright e).2⟩
    · refine ⟨hz, hzover, by rw [hzfound]; rfl, hzright, fun e => ?_⟩
      -- the left switch is closed in return travel, so the right limit was not met
      have hclosed : left = false ∧ x.work = 2 := by
        rw [hzfound] at e
        simpa [Pass.read] using e
      rcases hzwork with hw | hs
      · exact absurd ⟨by rw [hl', hclosed.1]; rfl, by rw [hf', hw, hclosed.2]⟩ hc
      · exact ⟨hs.1, hs.2.1⟩

/-- The pass is about to receive. -/
structure Pass.Polled (x : Pass) : Prop where
  safe : x.Safe
  got : x.found.got = none
  stopped : x.overload = true ∨ x.found.right = true → x.Stopped ∧ x.free = true
  left : x.found.left = true → x.in1 = false ∧ x.in2 = false

theorem run_motoOverload (h : x.Released) :
    (pass allowed depth).Run motoOverload {x with overload := true, found.measured := some none} fun _ y => y.Polled := by
  have hs : ({x with overload := true, found.measured := some none} : Pass).Safe :=
    ⟨fun e => absurd (h.underway.halted.symm.trans e) Bool.false_ne_true, fun _ e => (Option.some.inj e).symm,
      fun _ e _ => h.left e⟩
  refine run_stop hs fun hs => ?_
  refine Sight.Run.bind
    (R := fun _ y => y = {x with overload := true, found.measured := some none, in1 := false, in2 := false, work := 0})
    (run_aside ?_ hs) fun _ y hy => hy ▸ run_skip rfl hs fun _ _ => ?_
  · exact All.bind (all_countUp rfl (fun _ => rfl) fun _ => all_flashSet rfl rfl rfl) fun _ => All.perform rfl
  have hfree : ({x with
      overload := true, found.measured := some none, in1 := false, in2 := false, work := 0, free := true} : Pass).Safe :=
    ⟨hs.halted, hs.order, hs.left⟩
  refine Sight.Run.step fun _ _ => ⟨hfree, (run_aside ?_ hfree).mono fun _ z hz => ?_⟩
  · exact all_screenTimerRefresh rfl rfl
  · have hz' : z = {x with
        overload := true, found.measured := some none, in1 := false, in2 := false, work := 0, free := true} := hz
    rw [hz']
    exact ⟨hfree, h.got, fun _ => ⟨⟨rfl, rfl, rfl⟩, rfl⟩, fun _ => ⟨rfl, rfl⟩⟩

theorem run_motoPoll (hs : x.Safe) (hover : x.overload = false) (hf : x.found = {}) :
    (pass allowed depth).Run motoPoll x fun _ y => y.Polled := by
  have hskip : x.Polled := ⟨hs, by rw [hf], fun e => by simp [hover, hf] at e, fun e => by simp [hf] at e⟩
  refine run_skip rfl hs fun (w : Nat) hw => Sight.Run.when (fun hc => ?_) fun _ => hskip
  have hw' : w = x.work := hw
  have hunder : x.Underway := by
    refine ⟨?_, by rw [hf]⟩
    by_contra hn
    have := (hs.halted (by simpa using hn)).2.2
    omega
  refine Sight.Run.bind (run_motoFreeEventRelease hunder hover hf) fun _ y hy => ?_
  refine Sight.Run.step fun (v : Nat) _ => ?_
  have hsafe : ({y with overload := decide (v > 200) || y.overload, found.measured := some none} : Pass).Safe :=
    ⟨fun e => absurd (hy.underway.halted.symm.trans e) Bool.false_ne_true, fun _ e => (Option.some.inj e).symm,
      fun _ e _ => hy.left e⟩
  have hsame : y.after (.adcRead .moto) v =
      {y with overload := decide (v > 200) || y.overload, found.measured := some none} := by
    simp [Pass.after, hy.got]
  show (y.after (.adcRead .moto) v).Safe ∧ (pass allowed depth).Run _ (y.after (.adcRead .moto) v) _
  rw [hsame]
  refine ⟨hsafe, Sight.Run.when (fun hv => ?_) fun hv => ?_⟩
  · have hafter : (decide (v > 200) || y.overload) = true := by simp [hv]
    rw [hafter]
    exact run_motoOverload hy
  · have hov : (decide (v > 200) || y.overload) = false := by simp [hv, hy.overload]
    refine ⟨hsafe, hy.got, fun e => hy.right (e.resolve_left fun e => ?_), hy.left⟩
    exact absurd (hov.symm.trans e) Bool.false_ne_true

theorem Pass.Rest.of_stopped (h : x.Stopped) (hg : x.found.got ≠ none) : x.Rest :=
  ⟨fun _ => h, fun _ => hg, fun _ e => absurd (h.1.symm.trans e) Bool.false_ne_true⟩

/-- The pass has received a command that moves the valve, and nothing before forbids it. -/
structure Pass.Moving (x : Pass) (b : MotoBit) : Prop where
  overload : x.overload = false
  halted : x.halted = false
  right : x.found.right = false
  got : x.found.got = some (.only b)
  order : ∀ e, x.found.measured = some e → e = none
  left : x.found.left = true → x.in1 = true → b = .back ∧ x.found.leftOpen = true

theorem Pass.Moving.safe {b : MotoBit} (h : x.Moving b) : x.Safe :=
  ⟨fun e => absurd (h.halted.symm.trans e) Bool.false_ne_true, h.order,
    fun _ _ e => absurd (h.got.symm.trans e) (Option.some_ne_none _)⟩

theorem Pass.Moving.rest {b : MotoBit} (h : x.Moving b) : x.Rest := by
  refine ⟨fun e => ?_, fun e => absurd (h.overload.symm.trans e) Bool.false_ne_true, fun el ei => ?_⟩
  · rcases e with e | e
    · exact absurd (h.overload.symm.trans e) Bool.false_ne_true
    · exact absurd (h.right.symm.trans e) Bool.false_ne_true
  · obtain ⟨rfl, hopen⟩ := h.left el ei
    exact ⟨h.got, hopen⟩

theorem run_motoCaseForward (h : x.Moving .forward) :
    (pass allowed depth).Run motoCaseForward x fun _ y => y.Moving .forward := by
  refine run_skip rfl h.safe fun _ _ => Sight.Run.step fun (right : Bool) _ => ?_
  have hread : (x.after (.pinRead .motoRight) right).Moving .forward :=
    ⟨h.overload, h.halted, by simp [Pass.after, Findings.after, h.right, h.got], h.got, h.order, h.left⟩
  refine ⟨hread.safe, Sight.Run.ite (fun _ => ?_) fun _ => ?_⟩
  · have hlow : ∀ in2 work,
        ({x.after (.pinRead .motoRight) right with in1 := false, in2 := in2, work := work} : Pass).Moving .forward :=
      fun _ _ => ⟨h.overload, h.halted, hread.right, h.got, h.order, fun _ e => absurd e Bool.false_ne_true⟩
    exact Sight.Run.step fun _ _ => ⟨(hlow _ _).safe, Sight.Run.step fun _ _ => ⟨(hlow true _).safe,
      Sight.Run.perform fun _ _ => ⟨(hlow true 1).safe, hlow true 1⟩⟩⟩
  · have hstore : ({x.after (.pinRead .motoRight) right with work := 1} : Pass).Moving .forward :=
      ⟨h.overload, h.halted, hread.right, h.got, h.order, h.left⟩
    exact Sight.Run.perform fun _ _ => ⟨hstore.safe, hstore⟩

theorem run_motoCaseBack (h : x.Moving .back) (hlow : x.found.left = true → x.in1 = false) :
    (pass allowed depth).Run motoCaseBack x fun _ y => y.Moving .back := by
  refine run_skip rfl h.safe fun _ _ => Sight.Run.step fun (left : Bool) _ => ?_
  have hfound : (x.after (.pinRead .motoLeft) left).found = {x.found with leftOpen := left} := by
    simp [Pass.after, Findings.after, h.got]
  have hread : ∀ in1 in2 work, (in1 = true → left = true ∨ x.in1 = true) →
      ({x.after (.pinRead .motoLeft) left with in1 := in1, in2 := in2, work := work} : Pass).Moving .back := by
    refine fun in1 in2 work hin => ⟨h.overload, h.halted, ?_, ?_, ?_, fun el ei => ⟨rfl, ?_⟩⟩
    · simp only [hfound, h.right]
    · simp only [hfound, h.got]
    · simp only [hfound]
      exact h.order
    · simp only [hfound] at el ⊢
      exact (hin ei).resolve_right fun e => absurd ((hlow el).symm.trans e) Bool.false_ne_true
  have hx : (x.after (.pinRead .motoLeft) left).Moving .back := hread x.in1 x.in2 x.work .inr
  refine ⟨hx.safe, Sight.Run.when (fun hl => ?_) fun _ => hx⟩
  exact Sight.Run.step fun _ _ => ⟨(hread true _ _ fun _ => .inl hl).safe, Sight.Run.step fun _ _ =>
    ⟨(hread true false _ fun _ => .inl hl).safe, Sight.Run.perform fun _ _ =>
      ⟨(hread true false 2 fun _ => .inl hl).safe, hread true false 2 fun _ => .inl hl⟩⟩⟩

/-- What a receive leaves, before any case of the switch. -/
theorem Pass.Polled.receive (h : x.Polled) (e : MotoBits) : (x.after .motoRecv e).Safe ∧ (x.after .motoRecv e).Rest := by
  refine ⟨⟨fun eh => ?_, h.safe.order, fun _ _ eg => absurd eg (Option.some_ne_none e)⟩,
    fun hs => (h.stopped hs).1, fun _ => Option.some_ne_none e,
    fun hl ei => absurd ((h.left hl).1.symm.trans ei) Bool.false_ne_true⟩
  have hor : x.overload = true ∨ x.halted = true := by
    rcases Bool.or_eq_true_iff.mp eh with ho | hh
    · exact .inl ho
    · simp only [Bool.and_eq_true] at hh
      exact .inr hh.1.1
  exact hor.elim (fun ho => (h.stopped (.inl ho)).1) h.safe.halted

/-- The commands are received with `Free` among them wherever the valve was stopped
by the right limit or an overload, and then only `Free` has a case. -/
theorem run_motoSwitch (h : x.Polled) {e : MotoBits} (hfree : x.free = true → e.free = true) :
    (pass allowed depth).Run (motoSwitch e) (x.after .motoRecv e) fun _ y => y.Safe ∧ y.Rest := by
  obtain ⟨hsafe, hrest⟩ := h.receive e
  have hmoving : ∀ b, e = .only b → b = .forward ∨ b = .back → (x.after .motoRecv e).Moving b := by
    rintro b rfl hb
    have hnot : ¬ (x.overload = true ∨ x.found.right = true) := by
      intro ho
      have := hfree (h.stopped ho).2
      rcases hb with rfl | rfl <;> cases this
    simp only [not_or, Bool.not_eq_true] at hnot
    refine ⟨hnot.1, ?_, hnot.2, rfl, h.safe.order, fun el ei => absurd ((h.left el).1.symm.trans ei) Bool.false_ne_true⟩
    rcases hb with rfl | rfl <;> simp [Pass.after, hnot.1, MotoBits.only, MotoBits.send]
  refine Sight.Run.ite (fun _ => ?_) fun _ => Sight.Run.ite (fun he => ?_) fun _ => Sight.Run.ite (fun he => ?_)
    fun _ => ⟨hsafe, hrest⟩
  · refine run_skip rfl hsafe fun _ _ => run_stop (p := pure ()) hsafe fun hs => ?_
    exact ⟨hs, Pass.Rest.of_stopped ⟨rfl, rfl, rfl⟩ (Option.some_ne_none e)⟩
  · exact (run_motoCaseForward (hmoving _ he (.inl rfl))).mono fun _ _ hy => ⟨hy.safe, hy.rest⟩
  · exact (run_motoCaseBack (hmoving _ he (.inr rfl)) fun hl => (h.left hl).1).mono fun _ _ hy => ⟨hy.safe, hy.rest⟩

theorem run_motoEntry (hs : x.Safe) (hover : x.overload = false) (hf : x.found = {}) :
    (pass allowed depth).Run motoEntry x fun _ y => y.Rest := by
  refine Sight.Run.bind (run_motoPoll hs hover hf) fun _ y hy => Sight.Run.step fun (e : MotoBits) he => ?_
  obtain ⟨hsafe, hrest⟩ := hy.receive e
  refine ⟨hsafe, Sight.Run.bind (R := fun _ z => z.Safe ∧ z.Rest) ?_ fun _ z hz => ?_⟩
  · exact Sight.Run.when (fun _ => run_motoSwitch hy he) fun _ => ⟨hsafe, hrest⟩
  · exact Sight.Run.perform fun _ _ => ⟨hz.1, hz.2⟩

end

/-- Every run is seen by the motor thread. -/
theorem pass_seen (allowed : Call → Bool) (depth : Nat) (flash : Nat → Nat) (as : List Act) :
    ∃ x : Pass, x.Safe ∧
      x.Sees ((board allowed depth).run (start flash) as).state ((board allowed depth).run (start flash) as).trace ∧
      (((board allowed depth).run (start flash) as).task .motor = none → x.Rest) := by
  have hbody : ∀ c s x, (board allowed depth).ready (pass allowed depth).thread c s = true →
      (pass allowed depth).Rest x → (pass allowed depth).Safe ((pass allowed depth).first c x) →
      (pass allowed depth).Run ((board allowed depth).body c) ((pass allowed depth).first c x) fun _ y =>
        (pass allowed depth).Rest y := by
    intro c s x hready _ hsafe
    have hr : (.motor = c.thread ∧ allowed c = true) ∧ c.enabled s = true := by simpa [board, pass] using hready
    obtain ⟨⟨ht, -⟩, -⟩ := hr
    obtain rfl : c = .motoEntry := by cases c <;> first | rfl | cases ht
    exact run_motoEntry hsafe rfl rfl
  have hwork : (boot flash).vars .motoWorkFlag = 0 := boot_motoWorkFlag flash
  have hvar : ∀ v, v = .leftStatus ∨ v = .rightStatus → (boot flash).vars v = 0 := fun v hv => by
    rw [boot_vars (fun n => by rcases hv with rfl | rfl <;> rfl) (fun w => by rcases hv with rfl | rfl <;> simp)
      (by rcases hv with rfl | rfl <;> decide)]
    rcases hv with rfl | rfl <;> rfl
  refine Owner.run_sees (N := pass allowed depth) hbody (y := ⟨false, false, 0, 0, 0, false, false, false, {}⟩)
    ?_ ?_ ?_ (System.admits_true _ as)
  · exact ⟨fun _ => ⟨rfl, rfl, rfl⟩, by simp, by simp⟩
  · exact ⟨by simp, by simp, by simp⟩
  · refine ⟨fun e => ?_, fun e => ?_, hwork, hvar _ (.inl rfl), hvar _ (.inr rfl), nofun, rfl, rfl, rfl, boot_moto flash, rfl⟩
    · rw [boot_pins] at e
      cases e
    · rw [boot_pins] at e
      cases e

theorem Pass.Sees.low {x : Pass} {s : Device} {tr : Trace} (h : x.Sees s tr) (h1 : x.in1 = false) (h2 : x.in2 = false) :
    Low s := by
  constructor
  · by_contra hn
    exact absurd (h1.symm.trans (h.in1 (by simpa using hn))) Bool.false_ne_true
  · by_contra hn
    exact absurd (h2.symm.trans (h.in2 (by simpa using hn))) Bool.false_ne_true

/-- An overload always stops the valve and keeps it stopped. -/
theorem overload_stops (allowed : Call → Bool) (depth : Nat) (flash : Nat → Nat) (as : List Act) :
    OverloadStops ((board allowed depth).run (start flash) as) := by
  obtain ⟨x, hsafe, hsees, hrest⟩ := pass_seen allowed depth flash as
  refine ⟨fun hidle hover => ?_, fun hhalted => ?_⟩
  · have hx : x.overload = true := hsees.overload.symm.trans hover
    obtain ⟨h1, h2, hw⟩ := (hrest hidle).stopped (.inl hx)
    refine ⟨hsees.low h1 h2, hsees.work.trans hw, ?_, hsees.bits⟩
    rw [hsees.found]
    exact (hrest hidle).overload hx
  · obtain ⟨h1, h2, -⟩ := hsafe.halted (hsees.halted.symm.trans hhalted)
    exact hsees.low h1 h2

/-- Forward travel, then a pass that measures a motor current above the threshold. -/
def overloadRun : List Act :=
  request ++ openPass 8 ++ .start .motor .motoEntry :: turns .motor {level := true, value := 201} 40

example :
    ((board motorCalls 0).run (start fun _ => 0) overloadRun).head .motor = none ∧
    overloaded ((board motorCalls 0).run (start fun _ => 0) overloadRun).trace = true := by
  decide +kernel

/-- A limit switch always ends the drive in its direction. -/
theorem limits_stop (allowed : Call → Bool) (depth : Nat) (flash : Nat → Nat) (as : List Act) :
    LimitsStop ((board allowed depth).run (start flash) as) := by
  obtain ⟨x, hsafe, hsees, hrest⟩ := pass_seen allowed depth flash as
  refine ⟨fun hidle hright => ?_, fun hhead hleft => ?_, fun hidle hleft hin1 => ?_⟩
  · obtain ⟨h1, h2, hw⟩ := (hrest hidle).stopped (.inr (hsees.found ▸ hright))
    exact ⟨hsees.low h1 h2, hsees.work.trans hw⟩
  · -- one operation further the motor current has been measured, with the inputs as they are
    obtain ⟨hstate, htrace⟩ := System.next_head hhead {}
    obtain ⟨y, hy, hsees', -⟩ := pass_seen allowed depth flash (as ++ [.step .motor {}])
    rw [System.run_concat, hstate, htrace] at hsees'
    have hfound : y.found = {x.found with measured := some x.found.got} := by
      rw [← hsees'.found, ← hsees.found]
      rfl
    have hgot : x.found.got = none := hy.order _ (by rw [hfound])
    have hlow : y.in1 = false ∧ y.in2 = false := by
      refine hy.left ?_ ?_ ?_
      · simp [hfound]
      · simp [hfound, ← hsees.found, hleft]
      · simp [hfound, hgot]
    have hpins : ∀ q, (exec .motor (.adcRead .moto) {} ((board allowed depth).run (start flash) as).state).1.pins q =
        ((board allowed depth).run (start flash) as).state.pins q := fun q => exec_pins (fun b e => by cases e) {}
    have hafter := hsees'.low hlow.1 hlow.2
    exact ⟨(hpins _).symm.trans hafter.1, (hpins _).symm.trans hafter.2⟩
  · have hleft' : x.found.left = true := hsees.found ▸ hleft
    have := (hrest hidle).left hleft' (hsees.in1 hin1)
    rwa [← hsees.found] at this

example :
    ((board motorCalls 0).run (start fun _ => 0) (request ++ openPass 8 ++ rightPass 26)).head .motor = none ∧
    (findings ((board motorCalls 0).run (start fun _ => 0) (request ++ openPass 8 ++ rightPass 26)).trace).right = true := by
  decide +kernel

end Backwash.Motor
