import Backwash.Concurrent.Sight
import Backwash.Rtc.Elapsed

/-! A schedule acts once in a period.

The alarm counts hours in RAM, and a pass of the check thread compares them with the
period, acts, resets and stores. Between two alarms a pass is a function of what it
finds. So there is one account for both schedules: the actions taken, times the period,
and the hours on top are the hours at first and the alarms since. -/
namespace Backwash.Rtc
open Concurrent Prog Protocol System Firmware

/-! ### What is counted -/

def alarms : Trace → Nat
  | [] => 0
  | .began _ .rtcAlarm :: tr => alarms tr + 1
  | _ :: tr => alarms tr

/-- The calls of a function by the check thread. -/
def calls (m : Mark) : Trace → Nat
  | [] => 0
  | .did .rtcCheck (.mark n) _ :: tr => calls m tr + if n = m then 1 else 0
  | _ :: tr => calls m tr

/-- What the check thread has called after each alarm, latest first. -/
def passes : Trace → List (List Mark)
  | [] => []
  | .began _ .rtcAlarm :: tr => [] :: passes tr
  | .did .rtcCheck (.mark m) _ :: tr => (passes tr).modifyHead (m :: ·)
  | _ :: tr => passes tr

/-- What a schedule does when it is due. -/
def action : Schedule → Mark
  | .reminder => .jumptoReminder
  | .automatic => .jumptoAutomatic

/-- The low-power timer is started once, unless a schedule was due. -/
def SleepsIfIdle (pass : List Mark) : Prop :=
  pass.count .lowPowerTimerStart = if .jumptoReminder ∈ pass ∨ .jumptoAutomatic ∈ pass then 0 else 1

/-! ### The account -/

/-- The schedules as they are set, and where the account begins. -/
structure Base where
  week : Schedule → Nat
  day : Schedule → Nat
  first : Schedule → Nat
  trace : Trace

def Base.period (b : Base) (k : Schedule) : Nat := Firmware.period (b.week k) (b.day k)

structure Tally where
  time : Schedule → Nat
  stored : Schedule → Nat
  acted : Schedule → Nat
  flag : Nat
  token : Bool
  log : List (List Mark)

namespace Tally

def after : (o : Op) → Res o → Tally → Tally
  | .store (.rtcTime k) n, _, x => {x with time := Function.update x.time k (n % 2 ^ 32)}
  | .store .rtcEventFlag n, _, x => {x with flag := n % 2 ^ 8}
  | .semTake .rtcCheck, _, x => {x with token := false}
  | .efSet id n, _, x => {x with stored := fun k => if k.timeId = id then n % 2 ^ 32 else x.stored k}
  | .mark m, _, x =>
    {x with acted := fun k => x.acted k + if m = action k then 1 else 0
            log := x.log.modifyHead (m :: ·)}
  | _, _, x => x

def can (b : Base) : (o : Op) → Tally → Res o → Prop
  | .load (.rtcTime k), x, r => r = x.time k
  | .load (.week k), _, r => r = b.week k
  | .load (.day k), _, r => r = b.day k
  | .load (.enable _), _, r => r ≠ 0
  | .load .rtcEventFlag, x, r => r = x.flag
  | .semTake .rtcCheck, x, r => r = x.token
  | _, _, _ => True

structure Sees (b : Base) (x : Tally) (s : Device) (tr : Trace) : Prop where
  time : ∀ k, s.vars (.rtcTime k) = x.time k
  stored : ∀ k : Schedule, s.flash k.timeId = x.stored k
  flag : s.vars .rtcEventFlag = x.flag
  token : (s.sem .rtcCheck).length = if x.token then 1 else 0
  week : ∀ k, s.vars (.week k) = b.week k
  day : ∀ k, s.vars (.day k) = b.day k
  enable : ∀ k, s.vars (.enable k) ≠ 0
  acted : ∀ k, calls (action k) tr = calls (action k) b.trace + x.acted k
  log : passes tr = x.log ++ passes b.trace
  alarms : alarms tr = Rtc.alarms b.trace + x.log.length

/-- The operation is not in the account. -/
def steady (o : Op) : Bool :=
  untimed o && match o with
    | .store v _ => match v with
      | .week _ | .day _ | .rtcEventFlag => false
      | _ => true
    | _ => true

section
variable {b : Base} {t : Thread} {o : Op} {i : Input} {s : Device} {tr : Trace} {x : Tally}

theorem Sees.steady (h : Sees b x s tr) (ho : steady o = true) (hm : t = .rtcCheck → ∀ m, o ≠ .mark m) :
    Sees b x (exec t o i s).1 (.did t o i :: tr) := by
  obtain ⟨huntimed, hvar⟩ := Bool.and_eq_true_iff.mp ho
  have hhours : ∀ k, hours (exec t o i s).1 k = hours s k := hours_untimed huntimed
  have hvars : ∀ v, (∃ k, v = .week k ∨ v = .day k) ∨ v = .rtcEventFlag → (exec t o i s).1.vars v = s.vars v := by
    intro v hv
    refine exec_vars (fun n e => ?_) (fun w e => ?_) (fun e => ?_) i
    · subst e
      rcases hv with ⟨k, rfl | rfl⟩ | rfl <;> cases hvar
    · rcases hv with ⟨k, rfl | rfl⟩ | rfl <;> cases e
    · rcases hv with ⟨k, rfl | rfl⟩ | rfl <;> cases e
  have hcalls : ∀ m, calls m (.did t o i :: tr) = calls m tr := by
    intro m
    cases t with
    | rtcCheck =>
      cases o with
      | mark n => exact absurd rfl (hm rfl n)
      | _ => rfl
    | _ => rfl
  have hpasses : passes (.did t o i :: tr) = passes tr := by
    cases t with
    | rtcCheck =>
      cases o with
      | mark n => exact absurd rfl (hm rfl n)
      | _ => rfl
    | _ => rfl
  refine ⟨fun k => ?_, fun k => ?_, ?_, ?_, fun k => ?_, fun k => ?_, fun k => ?_, fun k => ?_, ?_, ?_⟩
  · exact (congrArg Hours.ram (hhours k)).trans (h.time k)
  · exact (congrArg Hours.stored (hhours k)).trans (h.stored k)
  · exact (hvars _ (.inr rfl)).trans h.flag
  · exact (congrArg Hours.tokens (hhours .reminder)).trans h.token
  · exact (hvars _ (.inl ⟨k, .inl rfl⟩)).trans (h.week k)
  · exact (hvars _ (.inl ⟨k, .inr rfl⟩)).trans (h.day k)
  · rw [show (exec t o i s).1.vars (.enable k) = s.vars (.enable k) from congrArg Hours.enable (hhours k)]
    exact h.enable k
  · rw [hcalls]
    exact h.acted k
  · rw [hpasses]
    exact h.log
  · exact h.alarms

theorem after_log (o : Op) (r : Res o) (x : Tally) : (x.after o r).log = [] ↔ x.log = [] := by
  cases o with
  | store v n => cases v <;> rfl
  | semTake k => cases k <;> rfl
  | mark m => cases hx : x.log <;> simp [after, hx]
  | _ => rfl

/-- A pass writes what its view says. -/
theorem Sees.own (h : Sees b x s tr) (hmay : may .rtcCheck o = true) (hlog : ∀ m, o = .mark m → x.log ≠ []) :
    Sees b (x.after o (exec .rtcCheck o i s).2) (exec .rtcCheck o i s).1 (.did .rtcCheck o i :: tr) := by
  cases o with
  | store v n =>
    cases v with
    | rtcTime k =>
      refine ⟨fun j => ?_, h.stored, h.flag, h.token, h.week, h.day, h.enable, h.acted, h.log, h.alarms⟩
      by_cases hj : j = k
      · subst hj
        simp [Firmware.exec, Device.store, after, Var.width]
      · simpa [Firmware.exec, Device.store, after, hj] using h.time j
    | rtcEventFlag =>
      exact ⟨h.time, h.stored, rfl, h.token, h.week, h.day, h.enable, h.acted, h.log, h.alarms⟩
    | jumptoReminderFlag | jumptoAutomaticFlag => exact h.steady rfl (by simp)
    | counter c => exact h.steady rfl (by simp)
    | _ => cases hmay
  | semTake k =>
    cases k with
    | rtcCheck =>
      refine ⟨h.time, h.stored, h.flag, ?_, h.week, h.day, h.enable, h.acted, h.log, h.alarms⟩
      have htoken := h.token
      simp only [Firmware.exec, Function.update_self, List.length_tail, after, Bool.false_eq_true, if_false]
      split at htoken <;> omega
    | _ => cases hmay
  | efSet id n =>
    refine ⟨h.time, fun k => ?_, h.flag, h.token, h.week, h.day, h.enable, h.acted, h.log, h.alarms⟩
    by_cases hk : k.timeId = id
    · simp [Firmware.exec, after, hk]
    · simpa [Firmware.exec, after, hk] using h.stored k
  | mark m =>
    refine ⟨h.time, h.stored, h.flag, h.token, h.week, h.day, h.enable, fun k => ?_, ?_, ?_⟩
    · simp only [calls, h.acted k, after]
      omega
    · cases hx : x.log with
      | nil => exact absurd hx (hlog m rfl)
      | cons pass rest => simp [passes, h.log, after, hx]
    · simpa [after, Rtc.alarms] using h.alarms
  | timerStart y => exact h.steady rfl (by simp)
  | load v => exact h.steady rfl (by simp)
  | mdelay n => exact h.steady rfl (by simp)
  | efBegin id => exact h.steady rfl (by simp)
  | _ => cases hmay

theorem Sees.can (h : Sees b x s tr) : x.can b o (exec .rtcCheck o i s).2 := by
  cases o with
  | load v =>
    cases v with
    | rtcTime k => exact h.time k
    | week k => exact h.week k
    | day k => exact h.day k
    | enable k => exact h.enable k
    | rtcEventFlag => exact h.flag
    | _ => exact trivial
  | semTake k =>
    cases k with
    | rtcCheck =>
      have htoken := h.token
      show (!(s.sem .rtcCheck).isEmpty) = x.token
      cases hs : s.sem .rtcCheck <;> cases hx : x.token <;> simp [hs, hx] at htoken ⊢
    | _ => exact trivial
  | _ => exact trivial

end

/-! ### A pass -/

/-- The alarm counts both schedules and asks for a pass. -/
def alarm (x : Tally) : Tally := {x with time := fun k => x.time k + 1, token := true, log := [] :: x.log}

def act (k : Schedule) (x : Tally) : Tally :=
  {x with acted := Function.update x.acted k (x.acted k + 1)
          log := x.log.modifyHead (action k :: ·)}

def write (k : Schedule) (n : Nat) (x : Tally) : Tally := {x with stored := Function.update x.stored k n}

/-- A schedule is due, or its hours are stored. -/
def check (b : Base) (k : Schedule) (x : Tally) : Tally :=
  if b.period k ≤ x.time k then
    ({x with time := Function.update x.time k 0, flag := 1}.write k 0).act k
  else x.write k (x.time k)

def startLowPower (x : Tally) : Tally := {x with log := x.log.modifyHead (.lowPowerTimerStart :: ·)}

/-- The low-power timer is started where nothing was due. -/
def sleep (x : Tally) : Tally := if x.flag = 0 then x.startLowPower else x

/-- A pass that has got its token. -/
def pass (b : Base) (x : Tally) : Tally :=
  (({x with token := false, flag := 0}.check b .reminder).check b .automatic).sleep

/-- Between two alarms, with the last pass complete. -/
structure Done (b : Base) (x : Tally) : Prop where
  account : ∀ k, x.acted k * b.period k + x.time k = b.first k + x.log.length
  below : ∀ k, x.time k < b.period k
  stored : x.log ≠ [] → ∀ k, x.stored k = x.time k
  sleeps : ∀ pass ∈ x.log, SleepsIfIdle pass
  token : x.token = false

theorem Done.pass {b : Base} {x : Tally} (h : Done b x) : Done b (x.alarm.pass b) := by
  have hr := h.account .reminder
  have ha := h.account .automatic
  have hbr := h.below .reminder
  have hba := h.below .automatic
  by_cases hdr : b.period .reminder ≤ x.time .reminder + 1 <;> by_cases hda : b.period .automatic ≤ x.time .automatic + 1
  all_goals
    refine ⟨fun k => ?_, fun k => ?_, fun _ k => ?_, ?_, ?_⟩
    · cases k <;> simp [Tally.pass, alarm, check, act, write, sleep, startLowPower, hdr, hda, Nat.add_mul]
      all_goals omega
    · cases k <;> simp [Tally.pass, alarm, check, act, write, sleep, startLowPower, hdr, hda]
      all_goals omega
    · cases k <;> simp [Tally.pass, alarm, check, act, write, sleep, startLowPower, hdr, hda]
    · simpa [Tally.pass, alarm, check, act, write, sleep, startLowPower, hdr, hda, SleepsIfIdle, action] using h.sleeps
    · simp [Tally.pass, alarm, check, act, write, sleep, startLowPower, hdr, hda]

/-! ### The pass of the firmware -/

/-- The account of the check thread, once it has got a token. -/
def inPass (b : Base) : Sight Res Tally where
  can := can b
  after := after
  Safe := fun x => x.log ≠ []

section
variable {b : Base} {x : Tally} {α β : Type}

theorem run_step {o : Op} {f : Res o → Code β} {y : Tally} {Q : β → Tally → Prop} (ho : ∀ r, x.after o r = y)
    (hy : y.log ≠ []) (hf : ∀ r, x.can b o r → (inPass b).Run (f r) y Q) : (inPass b).Run (perform o >>= f) x Q := by
  refine Sight.Run.step fun r hr => ?_
  show (x.after o r).log ≠ [] ∧ (inPass b).Run (f r) (x.after o r) Q
  rw [ho r]
  exact ⟨hy, hf r hr⟩

/-- One operation, last of all. -/
theorem run_last {o : Op} {y : Tally} (ho : ∀ r, x.after o r = y) (hy : y.log ≠ []) :
    (inPass b).Run (perform o) x fun _ z => z = y := by
  refine Sight.Run.perform fun r _ => ?_
  show (x.after o r).log ≠ [] ∧ x.after o r = y
  rw [ho r]
  exact ⟨hy, rfl⟩

theorem after_hours (k : Schedule) (n : Nat) (r : Unit) : x.after (.efSet k.timeId n) r = x.write k (n % 2 ^ 32) := by
  simp only [after, write]
  congr 1
  funext j
  cases j <;> cases k <;> rfl

/-- An entry of the store that holds no hours. -/
theorem after_entry {id : Nat} (h : ∀ k : Schedule, k.timeId ≠ id) (n : Nat) (r : Unit) : x.after (.efSet id n) r = x := by
  simp only [after, h, if_false]

theorem after_action (k : Schedule) (r : Unit) : x.after (.mark (action k)) r = x.act k := by
  simp only [after, act]
  congr 1
  funext j
  cases j <;> cases k <;> rfl

theorem after_lowPower (r : Unit) : x.after (.mark .lowPowerTimerStart) r = x.startLowPower := by
  simp only [after, startLowPower]
  congr 1
  funext j
  cases j <;> rfl

theorem modifyHead_ne {γ : Type} {f : γ → γ} {xs : List γ} (h : xs ≠ []) : xs.modifyHead f ≠ [] := by
  cases xs with
  | nil => exact absurd rfl h
  | cons y rest => exact List.cons_ne_nil _ _

theorem check_log (k : Schedule) (hx : x.log ≠ []) : (x.check b k).log ≠ [] := by
  unfold check
  split
  · exact modifyHead_ne hx
  · exact hx

theorem run_hours (k : Schedule) {n : Nat} (hn : n < 2 ^ 32) (hx : x.log ≠ []) :
    (inPass b).Run (flashSet k.timeId n) x fun _ y => y = x.write k n := by
  have hwrite : ∀ r, x.after (.efSet k.timeId n) r = x.write k n := fun r => by
    rw [after_hours, Nat.mod_eq_of_lt hn]
  exact run_step (fun _ => rfl) hx fun _ _ => run_step hwrite hx fun _ _ => run_last (o := .mdelay 10) (fun _ => rfl) hx

theorem run_jump (k : Schedule) (hx : x.log ≠ []) : (inPass b).Run k.jump x fun _ y => y = x.act k := by
  have hy : (x.act k).log ≠ [] := modifyHead_ne hx
  have haction := after_action (x := x) k
  have hset : ∀ n r, (x.act k).after (.efSet 9 n) r = x.act k := after_entry fun j => by cases j <;> decide
  cases k with
  | reminder => exact run_step haction hy fun _ _ => run_last (fun _ => rfl) hy
  | automatic =>
    refine run_step haction hy fun _ _ => ?_
    refine run_step (fun _ => rfl) hy fun (n : Nat) _ => run_step (fun _ => rfl) hy fun _ _ => ?_
    refine run_step (fun _ => rfl) hy fun (n : Nat) _ => run_step (fun _ => rfl) hy fun _ _ => ?_
    refine run_step (hset n) hy fun _ _ => run_step (o := .mdelay 10) (fun _ => rfl) hy fun _ _ => ?_
    exact run_last (fun _ => rfl) hy

theorem run_rtcCheckSchedule (k : Schedule) (hp : b.period k < 2 ^ 32) (hx : x.log ≠ []) :
    (inPass b).Run (rtcCheckSchedule k) x fun _ y => y = x.check b k := by
  refine run_step (fun _ => rfl) hx fun (e : Nat) (he : e ≠ 0) => Sight.Run.when (fun _ => ?_) fun h => absurd he h
  refine run_step (fun _ => rfl) hx fun (n : Nat) (hn : n = x.time k) => ?_
  refine run_step (fun _ => rfl) hx fun (w : Nat) (hw : w = b.week k) => ?_
  refine run_step (fun _ => rfl) hx fun (d : Nat) (hd : d = b.day k) => ?_
  subst hn hw hd
  refine Sight.Run.ite (fun hdue => ?_) fun hdue => ?_
  · rw [show x.check b k = _ from if_pos hdue]
    refine run_step (y := {x with time := Function.update x.time k 0}) (fun _ => rfl) hx fun _ _ => ?_
    refine run_step (y := {x with time := Function.update x.time k 0, flag := 1}) (fun _ => rfl) hx fun _ _ => ?_
    have hreset : ({x with time := Function.update x.time k 0, flag := 1} : Tally).log ≠ [] := hx
    refine (run_hours k (Nat.two_pow_pos 32) hreset).bind fun _ y hy => ?_
    rw [hy]
    exact run_jump k hx
  · rw [show x.check b k = _ from if_neg hdue]
    refine run_step (fun _ => rfl) hx fun (n : Nat) (hn : n = x.time k) => ?_
    subst hn
    exact run_hours k (Nat.lt_trans (Nat.lt_of_not_le hdue) hp) hx

/-- A pass that has got its token does what the account says. -/
theorem run_pass (hp : ∀ k, b.period k < 2 ^ 32) (hx : x.log ≠ []) :
    (inPass b).Run (do
      store .rtcEventFlag 0
      rtcCheckSchedule .reminder
      rtcCheckSchedule .automatic
      let f ← load .rtcEventFlag
      when (f = 0) lowPowerTimerStart) {x with token := false} fun _ y => y = x.pass b := by
  refine run_step (y := {x with token := false, flag := 0}) (fun _ => rfl) hx fun _ _ => ?_
  refine Sight.Run.bind (run_rtcCheckSchedule .reminder (hp _) hx) fun _ y hy => ?_
  have hy' : y.log ≠ [] := hy ▸ check_log .reminder hx
  refine Sight.Run.bind (run_rtcCheckSchedule .automatic (hp _) hy') fun _ z hz => ?_
  have hz' : z.log ≠ [] := hz ▸ check_log .automatic hy'
  have hpass : x.pass b = z.sleep := by rw [hz, hy]; rfl
  rw [hpass]
  refine run_step (fun _ => rfl) hz' fun (f : Nat) (hf : f = z.flag) => ?_
  subst hf
  refine Sight.Run.when (fun h0 => ?_) fun h0 => (if_neg h0).symm
  rw [show z.sleep = _ from if_pos h0]
  exact run_step after_lowPower (modifyHead_ne hz') fun _ _ => run_last (fun _ => rfl) (modifyHead_ne hz')

end

end Tally

/-! ### Every run -/

/-- The operation sets the hours of a schedule or the schedule itself. -/
def reschedules : Option Op → Bool
  | some (.store v _) => match v with
    | .rtcTime _ | .week _ | .day _ | .enable _ => true
    | _ => false
  | some (.efSet id _) => id == 16 || id == 17
  | _ => false

/-- The check thread has completed the pass of every alarm. -/
def Complete (cfg : Conf) : Prop := cfg.task .rtcCheck = none ∧ cfg.state.sem .rtcCheck = []

/-- Every alarm follows the complete pass of the one before, and nobody but the check
thread sets hours or schedules, as a request, a save of a schedule and the factory reset do. -/
def OnlyPasses (cfg : Conf) : Act → Prop
  | .start _ c => c = .rtcAlarm → Complete cfg
  | .step t _ => t ≠ .rtcCheck → reschedules (cfg.head t) = false

/-- Of the windows these are the request's, the two editors of schedules and the factory reset. -/
theorem reschedules_window {w : Win} {o : Op} (h : saveMay w o = true) (ho : reschedules (some o) = true) :
    w = .w2 ∨ w = .w4 ∨ w = .w5 ∨ w = .w19 := by
  cases o with
  | store v n =>
    cases v with
    | rtcTime k =>
      obtain ⟨hmay, -⟩ := Bool.and_eq_true_iff.mp h
      have hown : ownMay w (.store (.rtcTime k) n) = true := (Bool.and_eq_true_iff.mp hmay).2
      cases w <;> first | (cases hown; done) | simp
    | week k | day k | enable k => cases k <;> cases w <;> first | (cases h; done) | simp
    | _ => cases ho
  | efSet id n =>
    obtain ⟨-, hsaves⟩ := Bool.and_eq_true_iff.mp h
    have hid : id = 16 ∨ id = 17 := by simpa [reschedules] using ho
    rcases hid with rfl | rfl <;> cases w <;> first | (cases hsaves; done) | simp
  | _ => cases ho

/-- Nothing else in a pass of the display thread does it. -/
theorem reschedules_task {o : Op} (h : taskMay o = true) : reschedules (some o) = false := by
  cases o with
  | store v n => cases v <;> first | rfl | cases h
  | efSet id n =>
    have hid : id = 9 ∨ id = 10 := by simpa [taskMay] using h
    rcases hid with rfl | rfl <;> rfl
  | _ => rfl

instance (cfg : Conf) : Decidable (Complete cfg) :=
  decidable_of_iff ((cfg.task .rtcCheck).isNone = true ∧ (cfg.state.sem .rtcCheck).isEmpty = true)
    (by simp [Complete])

instance (cfg : Conf) : ∀ a, Decidable (OnlyPasses cfg a)
  | .start _ _ => inferInstanceAs (Decidable (_ → _))
  | .step _ _ => inferInstanceAs (Decidable (_ → _))

open Tally

/-- Between two passes: an alarm waits for its pass, or there is nothing to do. -/
def AtRest (b : Base) (x : Tally) : Prop := Done b x ∨ ∃ y, Done b y ∧ x = y.alarm

/-- The check thread carries the account while it is in the pass of an alarm. -/
def periods (b : Base) (allowed : Call → Bool) (depth : Nat) : Protocol (board allowed depth) (Option Tally) where
  Rule := OnlyPasses
  Inv := fun gs s tr => match gs .rtcCheck with
    | none => ∃ x, AtRest b x ∧ Sees b x s tr
    | some x => Sees b x s tr
  At := fun t c g => t = .rtcCheck → c = none → g = none

section
variable {b : Base} {allowed : Call → Bool} {depth : Nat} {t : Thread} {c : Call} {o : Op} {i : Input} {s : Device}
  {tr : Trace} {x : Tally}

theorem Tally.Sees.began (h : Sees b x s tr) (hc : c ≠ .rtcAlarm) : Sees b x (enter c s) (.began t c :: tr) := by
  obtain ⟨htime, hstored, hflag, htoken, hweek, hday, henable, hacted, hlog, halarms⟩ := h
  cases c with
  | rtcAlarm => exact absurd rfl hc
  | _ => exact ⟨htime, hstored, hflag, htoken, hweek, hday, henable, hacted, hlog, halarms⟩

theorem Tally.Sees.alarm (h : Sees b x s tr) (hlt : ∀ k, x.time k + 1 < 2 ^ 32) (htoken : x.token = false) :
    Sees b x.alarm (enter .rtcAlarm s) (.began t .rtcAlarm :: tr) := by
  have hhours := hours_alarm s
  refine ⟨fun k => ?_, fun k => ?_, ?_, ?_, fun k => ?_, fun k => ?_, fun k => ?_, h.acted, ?_, ?_⟩
  · have hram := congrArg Hours.ram (hhours k)
    have hlt := hlt k
    have htime := h.time k
    have he := h.enable k
    simp only [hours, Hours.alarm, he, if_false] at hram
    rw [hram, htime, Nat.mod_eq_of_lt hlt]
    rfl
  · exact (congrArg Hours.stored (hhours k)).trans (h.stored k)
  · rw [enter_vars (by simp) (by simp)]
    exact h.flag
  · have htokens := congrArg Hours.tokens (hhours .reminder)
    have hone := h.token
    simp only [hours, Hours.alarm] at htokens
    simp only [htoken, Bool.false_eq_true, if_false] at hone
    simp [htokens, hone, Tally.alarm]
  · rw [enter_vars (by simp) (by simp)]
    exact h.week k
  · rw [enter_vars (by simp) (by simp)]
    exact h.day k
  · rw [enter_vars (by simp) (by simp)]
    exact h.enable k
  · simp [passes, h.log, Tally.alarm]
  · simp only [Rtc.alarms, h.alarms, Tally.alarm, List.length_cons]
    omega

/-- Of what the other threads may do, only what the rule excludes is in the account. -/
theorem steady_of_other (ht : t ≠ .rtcCheck) (hirq : t ≠ .irq) (hmay : may t o = true)
    (ho : reschedules (some o) = false) : steady o = true := by
  cases o with
  | store v n =>
    cases v <;> first
      | rfl
      | (cases ho; done)
      | (cases t <;> first | exact absurd rfl ht | exact absurd rfl hirq | cases hmay)
  | efSet id n => simpa [steady, untimed, reschedules] using ho
  | semTake k => cases k <;> first | rfl | (cases t <;> first | exact absurd rfl ht | cases hmay)
  | semRelease k =>
    cases k <;> first | rfl | (cases t <;> first | exact absurd rfl ht | exact absurd rfl hirq | cases hmay)
  | _ => rfl

/-- A step of another thread leaves the account. -/
theorem periods_other (ht : t ≠ .rtcCheck) (hirq : t ≠ .irq) {p : Code Unit} (hp : p.All fun o => may t o = true)
    (g : Option Tally) (Q : Unit → Option Tally → Prop) (hQ : ∀ u, Q u g) :
    (periods b allowed depth).Outline t c p g Q := by
  refine Outline.keep (fun e => absurd e ht) (hp.mono fun o ho cfg gs i _ hhead _ hold hr => ?_) hQ
  have hsteady : steady o = true := steady_of_other ht hirq ho (hhead ▸ hr ht)
  have hinv := hold.1
  show match gs .rtcCheck with
    | none => ∃ x, AtRest b x ∧ Sees b x _ _
    | some x => Sees b x _ _
  simp only [periods] at hinv
  split
  · next hg =>
    simp only [hg] at hinv
    obtain ⟨x, hrest, hsees⟩ := hinv
    exact ⟨x, hrest, hsees.steady hsteady fun e => absurd e ht⟩
  · next x hg =>
    simp only [hg] at hinv
    exact hinv.steady hsteady fun e => absurd e ht

/-- The operations of a pass, as the account has them. -/
theorem periods_run {α : Type} {p : Code α} {Q : α → Tally → Prop} (hmay : p.All fun o => may .rtcCheck o = true)
    (hp : (inPass b).Run p x Q) :
    (periods b allowed depth).Outline .rtcCheck c p (some x) fun a g => ∃ y, g = some y ∧ Q a y := by
  refine Sight.Run.outline (fun o x cfg gs i ho _ _ hg hold _ => ?_) hmay hp
  have hsees : Sees b x cfg.state cfg.trace := by
    have hinv := hold.1
    simpa only [periods, hg] using hinv
  refine ⟨hsees.can, fun hsafe => ⟨fun _ e => (by cases e), ?_⟩⟩
  have hlog : x.log ≠ [] := fun e => hsafe ((after_log o _ x).mpr e)
  simp only [periods, Function.update_self]
  exact hsees.own ho fun _ _ => hlog

/-- The end of a pass. -/
theorem periods_rest {g : Option Tally} (hg : g = none ∨ ∃ y, Done b y ∧ g = some y) :
    (periods b allowed depth).Outline .rtcCheck c (mdelay 100) g fun _ g => g = none := by
  refine Outline.move (fun _ _ => rfl) (fun cfg gs i _ _ hgs hold _ => ?_) fun _ => rfl
  have hinv := hold.1
  simp only [periods, Function.update_self]
  rcases hg with rfl | ⟨y, hdone, rfl⟩
  · simp only [periods, hgs] at hinv
    obtain ⟨x, hrest, hsees⟩ := hinv
    exact ⟨x, hrest, hsees.steady rfl (by simp)⟩
  · simp only [periods, hgs] at hinv
    exact ⟨y, .inl hdone, hinv.steady rfl (by simp)⟩

/-- A pass begins and ends at rest. -/
theorem periods_rtcCheck (hp : ∀ k, b.period k < 2 ^ 32) :
    (periods b allowed depth).Outline .rtcCheck .rtcCheck rtcCheckCallback none fun _ g => g = none := by
  refine Outline.bind (R := fun due g => if due = true then ∃ x, Done b x ∧ g = some {x.alarm with token := false} else g = none)
    (Outline.perform fun cfg gs i _ _ hg hold _ => ?_) fun (due : Bool) g hdue => ?_
  · have hinv := hold.1
    simp only [periods, hg] at hinv
    obtain ⟨x, hrest, hsees⟩ := hinv
    have htoken : (Firmware.exec .rtcCheck (.semTake .rtcCheck) i cfg.state).2 = x.token :=
      hsees.can (o := .semTake .rtcCheck)
    have hafter := hsees.own (o := .semTake .rtcCheck) (i := i) rfl (by simp)
    rw [board_exec, htoken]
    rcases hrest with hdone | ⟨y, hdone, rfl⟩
    · have hx : x.after (.semTake .rtcCheck) (Firmware.exec .rtcCheck (.semTake .rtcCheck) i cfg.state).2 = x := by
        simp [after, ← hdone.token]
      rw [hx] at hafter
      refine ⟨none, fun _ _ => rfl, ?_, by simp [hdone.token]⟩
      simp only [periods, Function.update_self]
      exact ⟨x, .inl hdone, hafter⟩
    · refine ⟨some {y.alarm with token := false}, fun _ e => (by cases e), ?_, y, hdone, rfl⟩
      simp only [periods, Function.update_self]
      exact hafter
  · refine Outline.bind (R := fun _ g => g = none ∨ ∃ y, Done b y ∧ g = some y) (Outline.when (fun hd => ?_) fun hd => ?_)
      fun _ g hg => periods_rest hg
    · rw [if_pos hd] at hdue
      obtain ⟨x, hdone, rfl⟩ := hdue
      refine (periods_run ?_ (run_pass (x := x.alarm) hp (List.cons_ne_nil _ _))).mono fun _ g ⟨y, hg, hy⟩ => ?_
      · have hkeeps := keeps_rtcCheckCallback.2 true
        exact All.of_bind hkeeps
      · exact .inr ⟨y, hy ▸ hdone.pass, hg⟩
    · rw [if_neg hd] at hdue
      exact .inl hdue

theorem AtRest.done (h : AtRest b x) (hx : x.token = false) : Done b x := by
  rcases h with h | ⟨y, -, rfl⟩
  · exact h
  · cases hx

/-- The beginning of a call leaves the account, but for an alarm, which is counted. -/
theorem periods_enter (hp : ∀ k, b.period k < 2 ^ 32) {gs : Thread → Option Tally} {cfg : Conf}
    (hold : (periods b allowed depth).Holds gs cfg) (hr : OnlyPasses cfg (.start t c)) :
    (periods b allowed depth).Inv gs (enter c cfg.state) (.began t c :: cfg.trace) := by
  have hinv := hold.1
  by_cases halarm : c = .rtcAlarm
  · subst halarm
    obtain ⟨hidle, hempty⟩ := hr rfl
    have hg : gs .rtcCheck = none := hold.2 .rtcCheck rfl (by simp [Config.call, hidle])
    simp only [periods, hg] at hinv ⊢
    obtain ⟨x, hrest, hsees⟩ := hinv
    have htoken : x.token = false := by
      have hone := hsees.token
      rw [hempty] at hone
      cases hx : x.token <;> simp [hx] at hone ⊢
    have hdone := hrest.done htoken
    have hlt : ∀ k, x.time k + 1 < 2 ^ 32 := fun k => Nat.lt_of_le_of_lt (hdone.below k) (hp k)
    exact ⟨x.alarm, .inr ⟨x, hdone, rfl⟩, hsees.alarm hlt htoken⟩
  · simp only [periods] at hinv ⊢
    split
    · next hg =>
      simp only [hg] at hinv
      obtain ⟨x, hrest, hsees⟩ := hinv
      exact ⟨x, hrest, hsees.began halarm⟩
    · next x hg =>
      simp only [hg] at hinv
      exact hinv.began halarm

theorem periods_begins (hp : ∀ k, b.period k < 2 ^ 32) (t : Thread) (c : Call) :
    (periods b allowed depth).Begins t c := by
  refine begins_board (fun c _ cfg gs hidle _ hold hr => ?_) t c
  refine ⟨gs c.thread, fun _ e => (by cases e), ?_, ?_⟩
  · rw [Function.update_eq_self]
    exact periods_enter hp hold hr
  by_cases ht : c.thread = .rtcCheck
  · cases c with
    | rtcCheck =>
      have hcall : cfg.call .rtcCheck = none := Option.map_eq_none_iff.mpr hidle
      rw [show gs Call.rtcCheck.thread = none from hold.2 .rtcCheck rfl hcall]
      exact (periods_rtcCheck hp).mono fun _ _ h _ _ => h
    | _ => cases ht
  by_cases hirq : c.thread = .irq
  · cases c with
    | rtcAlarm | waterFlow => exact fun e => absurd e ht
    | _ => cases hirq
  · exact periods_other ht hirq (body_may depth c) _ _ fun _ e => absurd e ht

/-! ### The account of a run -/

/-- Configurations that a run from a start comes to. -/
def Reachable (M : System Res Thread Call Device Input) (cfg : Conf) : Prop := ∃ flash as, M.run (start flash) as = cfg

/-- What a thread has left to do, wherever a run has come. -/
theorem Reachable.left {cfg : Conf} (h : Reachable (board allowed depth) cfg) :
    Left (fun t _ p => ∀ o, p.head = some o → may t o = true ∧ t ≠ .irq) cfg := by
  obtain ⟨flash, as, rfl⟩ := h
  refine run_invariant (Left _) (fun cfg a h _ => h.next (fun t c s hready => ?_) a) (Left.boot _ _)
    (System.admits_true _ as)
  have hr : (t = c.thread ∧ allowed c = true) ∧ c.enabled s = true := by simpa [board] using hready
  obtain ⟨⟨rfl, -⟩, -⟩ := hr
  by_cases hirq : c.thread = .irq
  · cases c with
    | rtcAlarm | waterFlow => exact fun _ e => nomatch e
    | _ => cases hirq
  · refine Always.of_all (body_may depth c) (fun _ => nofun) fun o k ho o' e => ?_
    cases e
    exact ⟨ho, hirq⟩

theorem Reachable.bounded {cfg : Conf} (h : Reachable (board allowed depth) cfg) : Bounded cfg.state := by
  obtain ⟨flash, as, rfl⟩ := h
  exact run_bounded allowed depth flash as

theorem all_of_heads {t : Thread} {p : Code Unit} (h : p.Always fun p => ∀ o, p.head = some o → may t o = true ∧ t ≠ .irq) :
    p.All fun o => may t o = true := by
  induction p with
  | ret a => trivial
  | op o k ih => exact ⟨(h.1 o rfl).1, fun r => ih r (h.2 r)⟩

end

/-- The hours between two actions of a schedule, as it is set. -/
def due (s : Device) (k : Schedule) : Nat := period (s.vars (.week k)) (s.vars (.day k))

/-- Both schedules are enabled and not yet due, and no pass is under way. -/
structure Ready (cfg : Conf) : Prop where
  complete : Complete cfg
  enable : ∀ k, cfg.state.vars (.enable k) ≠ 0
  below : ∀ k, cfg.state.vars (.rtcTime k) < due cfg.state k

/-- From `cfg₀` to `cfg`, `n` alarms later, both schedules have acted once a period. -/
structure OncePerPeriod (cfg₀ cfg : Conf) (n : Nat) : Prop where
  acted : ∀ k, calls (action k) cfg.trace =
    calls (action k) cfg₀.trace + (cfg₀.state.vars (.rtcTime k) + n) / due cfg₀.state k
  time : ∀ k, cfg.state.vars (.rtcTime k) = (cfg₀.state.vars (.rtcTime k) + n) % due cfg₀.state k
  stored : 1 ≤ n → ∀ k : Schedule, cfg.state.flash k.timeId = (cfg₀.state.vars (.rtcTime k) + n) % due cfg₀.state k
  passes : (passes cfg.trace).length = (Rtc.passes cfg₀.trace).length + n
  sleeps : ∀ pass ∈ (Rtc.passes cfg.trace).take n, SleepsIfIdle pass

/-- However the threads take turns, after every complete pass both schedules have acted
once a period. -/
theorem acts_once_per_period {allowed : Call → Bool} {depth : Nat} {cfg₀ : Conf}
    (hr : Reachable (board allowed depth) cfg₀) (h₀ : Ready cfg₀) {as : List Act}
    (h : (board allowed depth).Admits OnlyPasses cfg₀ as) (hc : Complete ((board allowed depth).run cfg₀ as)) :
    ∃ n, alarms ((board allowed depth).run cfg₀ as).trace = alarms cfg₀.trace + n ∧
      OncePerPeriod cfg₀ ((board allowed depth).run cfg₀ as) n := by
  let b : Base := ⟨fun k => cfg₀.state.vars (.week k), fun k => cfg₀.state.vars (.day k),
    fun k => cfg₀.state.vars (.rtcTime k), cfg₀.trace⟩
  have hp : ∀ k, b.period k < 2 ^ 32 := by
    intro k
    have hw := hr.bounded (.week k)
    have hd := hr.bounded (.day k)
    simp only [Var.width] at hw hd
    simp only [b, Base.period, period]
    omega
  let x₀ : Tally := ⟨fun k => cfg₀.state.vars (.rtcTime k), fun k => cfg₀.state.flash k.timeId, fun _ => 0,
    cfg₀.state.vars .rtcEventFlag, false, []⟩
  have hdone : Done b x₀ := ⟨fun k => by simp [x₀, b], h₀.below, fun e => absurd rfl e, by simp [x₀], rfl⟩
  have hsees : Sees b x₀ cfg₀.state cfg₀.trace :=
    ⟨fun _ => rfl, fun _ => rfl, rfl, by simp [x₀, h₀.complete.2], fun _ => rfl, fun _ => rfl, h₀.enable, fun _ => rfl, rfl, rfl⟩
  have hgood : (periods b allowed depth).Good (fun _ => none) cfg₀ := by
    refine ⟨⟨x₀, .inl hdone, hsees⟩, fun t => ?_⟩
    rcases htask : cfg₀.task t with _ | ⟨c, p⟩
    · exact fun _ _ => rfl
    · have ht : t ≠ .rtcCheck := by
        rintro rfl
        rw [h₀.complete.1] at htask
        cases htask
      have hleft := hr.left t c p htask
      refine ⟨fun e => absurd e ht, ?_⟩
      cases p with
      | ret a => exact fun e => absurd e ht
      | op o k => exact periods_other ht (hleft.1 o rfl).2 (all_of_heads hleft) _ _ fun _ e => absurd e ht
  obtain ⟨gs, hgood'⟩ := run_good (periods_begins hp) hgood h
  generalize (board allowed depth).run cfg₀ as = cfg at *
  have hg : gs .rtcCheck = none := hgood'.idle hc.1 rfl rfl
  have hinv := hgood'.1
  simp only [periods, hg] at hinv
  obtain ⟨x, hrest, hsees'⟩ := hinv
  have htoken : x.token = false := by
    have hone := hsees'.token
    rw [hc.2] at hone
    cases hx : x.token <;> simp [hx] at hone ⊢
  have hdone' := hrest.done htoken
  have hdiv : ∀ k, (b.first k + x.log.length) / b.period k = x.acted k ∧
      (b.first k + x.log.length) % b.period k = x.time k := by
    intro k
    have hbelow := hdone'.below k
    refine (Nat.div_mod_unique (by omega)).mpr ⟨?_, hbelow⟩
    rw [← hdone'.account k, Nat.mul_comm, Nat.add_comm]
  refine ⟨x.log.length, hsees'.alarms, fun k => ?_, fun k => ?_, fun hn k => ?_, ?_, ?_⟩
  · rw [hsees'.acted k, ← (hdiv k).1]
    rfl
  · rw [hsees'.time k, ← (hdiv k).2]
    rfl
  · rw [hsees'.stored k, hdone'.stored (List.ne_nil_of_length_pos hn) k, ← (hdiv k).2]
    rfl
  · rw [hsees'.log, List.length_append, Nat.add_comm]
  · rw [hsees'.log, List.take_left']
    · exact hdone'.sleeps
    · rfl

/-- Both schedules act every 192 hours, and the reminder is due in one. -/
def reminderNear (id : Nat) : Nat := if id = 16 then 191 else 1

/-- The hour passes, and the check thread gets its turn. -/
def anHour : List Act := .start .irq .rtcAlarm :: .start .rtcCheck .rtcCheck :: turns .rtcCheck {} 24

theorem acts_once_per_period_anHour :
    Reachable (board (fun _ => true) 1) (start reminderNear) ∧ Ready (start reminderNear) ∧
    (board (fun _ => true) 1).Admits OnlyPasses (start reminderNear) anHour ∧
    Complete ((board (fun _ => true) 1).run (start reminderNear) anHour) ∧
    ∃ n, alarms ((board (fun _ => true) 1).run (start reminderNear) anHour).trace = alarms (start reminderNear).trace + n ∧
      OncePerPeriod (start reminderNear) ((board (fun _ => true) 1).run (start reminderNear) anHour) n := by
  have hreach : Reachable (board (fun _ => true) 1) (start reminderNear) := ⟨reminderNear, [], rfl⟩
  have hready : Ready (start reminderNear) := by
    refine ⟨by decide +kernel, fun k => ?_, fun k => ?_⟩
    · cases k <;> decide +kernel
    · cases k <;> decide +kernel
  have hadmits : (board (fun _ => true) 1).Admits OnlyPasses (start reminderNear) anHour := by decide +kernel
  have hcomplete : Complete ((board (fun _ => true) 1).run (start reminderNear) anHour) := by decide +kernel
  exact ⟨hreach, hready, hadmits, hcomplete, acts_once_per_period hreach hready hadmits hcomplete⟩

end Backwash.Rtc
