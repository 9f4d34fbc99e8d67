import Backwash.Motor.Cycle
import Backwash.Motor.Ledger

/-! Every backwash reports one outcome.

The display thread, the timer thread and the motor thread hand the debt of an
accepted cycle on as `Ledger` says, operation by operation. -/
namespace Backwash.Motor
open Concurrent Prog Protocol Firmware

/-! ### The books of a configuration -/

/-- The accepted calls of `Moto_Cycle`. -/
def accepted : Trace → Nat
  | [] => 0
  | e :: tr => accepted tr + (accepts e).toNat

/-- The outcomes posted to `lcd_jump_event`. -/
def outcomes : Trace → Nat
  | [] => 0
  | e :: tr => outcomes tr + (reports e).toNat

/-- The motor's present pass has measured an overload and not received since. -/
def stalling : Trace → Bool
  | [] => false
  | .began t _ :: tr => t != .motor && stalling tr
  | .did t o i :: tr =>
    if t = .motor then match o with
      | .adcRead .moto => decide (i.value > 200)
      | .motoRecv => false
      | _ => stalling tr
    else stalling tr

/-- The motor's present pass has measured an overload and neither stopped
`Moto_Cycle_Timer` nor received since. -/
def stopping : Trace → Bool
  | [] => false
  | .began t _ :: tr => t != .motor && stopping tr
  | .did t o i :: tr =>
    if t = .motor then match o with
      | .adcRead .moto => decide (i.value > 200)
      | .motoRecv | .timerStop .motoCycle => false
      | _ => stopping tr
    else stopping tr

def books (s : Device) (tr : Trace) : Books where
  accepted := accepted tr
  outcomes := outcomes tr
  flag := s.vars .motoWorkFlag
  back := s.moto.back
  free := s.moto.free
  forward := s.moto.forward
  armed := s.armed .motoCycle
  stalling := stalling tr
  stopping := stopping tr
  backCase := decide (lastOp .motor tr = some (.mark (.motoCase .back)))

/-- The operation moves nothing that the books record. -/
def unrecorded : Op → Bool
  | .store v _ => v != .motoWorkFlag
  | .motoSend _ | .motoRecv => false
  | .jumpSend b => !isOutcome b
  | .timerStart x | .timerStop x => x != .motoCycle
  | .adcRead c => c != .moto
  | _ => true

section
variable {t : Thread} {o : Op} {i : Input} {s : Device} {tr : Trace}

theorem armed_unrecorded (ho : unrecorded o = true) : (exec t o i s).1.armed .motoCycle = s.armed .motoCycle :=
  exec_armed (fun e => by rw [e] at ho; cases ho) (fun e => by rw [e] at ho; cases ho) i

theorem books_unrecorded (ho : unrecorded o = true) :
    books (exec t o i s).1 (.did t o i :: tr) = {books s tr with
      backCase := decide (lastOp .motor (.did t o i :: tr) = some (.mark (.motoCase .back)))} := by
  have hflag : (exec t o i s).1.vars .motoWorkFlag = s.vars .motoWorkFlag :=
    exec_vars (v := .motoWorkFlag) (fun n e => by rw [e] at ho; simp [unrecorded] at ho) (fun _ => nofun) nofun i
  have hmoto : (exec t o i s).1.moto = s.moto :=
    exec_moto (fun b e => by rw [e] at ho; cases ho) (fun e => by rw [e] at ho; cases ho) i
  have hacc : accepted (.did t o i :: tr) = accepted tr := by
    simp [accepted, accepts_did (o := o) fun e => by rw [e] at ho; cases ho]
  have hout : outcomes (.did t o i :: tr) = outcomes tr := by
    simp [outcomes, reports_did (o := o) fun b e => by rw [e] at ho; simpa [unrecorded] using ho]
  have hstall : stalling (.did t o i :: tr) = stalling tr := by
    change (if t = .motor then _ else stalling tr) = stalling tr
    split
    · cases o with
      | adcRead c => cases c <;> first | rfl | cases ho
      | motoRecv => cases ho
      | _ => rfl
    · rfl
  have hstop : stopping (.did t o i :: tr) = stopping tr := by
    change (if t = .motor then _ else stopping tr) = stopping tr
    split
    · cases o with
      | adcRead c => cases c <;> first | rfl | cases ho
      | timerStop x => cases x <;> first | rfl | cases ho
      | motoRecv => cases ho
      | _ => rfl
    · rfl
  simp only [books, hflag, hmoto, hacc, hout, hstall, hstop, armed_unrecorded ho]

/-- What another thread does is in the books only where it is recorded. -/
theorem books_other (ho : unrecorded o = true) (ht : t ≠ .motor) :
    books (exec t o i s).1 (.did t o i :: tr) = books s tr := by
  rw [books_unrecorded ho, lastOp_did_of_ne ht]
  rfl

end

/-! ### The rules -/

def isRequest : Call → Bool
  | .motoCycle _ => true
  | _ => false

/-- `Moto_Cycle` is called only when every accepted cycle has reported. -/
def CalledInTurn (cfg : Conf) : Act → Prop
  | .start _ c => isRequest c = true → accepted cfg.trace = outcomes cfg.trace
  | .step _ _ => True

/-- An overload is measured only in return travel, while `Moto_Cycle_Timer` runs or
while `Back` is pending. -/
def OverloadInCycle (cfg : Conf) : Act → Prop
  | .step t i => t = .motor ∧ cfg.head t = some (.adcRead .moto) ∧ i.value > 200 →
      cfg.state.vars .motoWorkFlag = 2 ∨ cfg.state.armed .motoCycle = true ∨ cfg.state.moto.back = true
  | .start _ _ => True

/-- `Moto_Cycle_Timer` is not started between the measurement of an overload and
the stop of the timer, and does not expire between the measurement and the receive
of that pass. -/
def TimerAsideOverload (cfg : Conf) : Act → Prop
  | .step t _ => t = .lcd ∧ cfg.head t = some (.timerStart .motoCycle) → stopping cfg.trace = false
  | .start _ c => c = .expire .motoCycle → stalling cfg.trace = false

/-- `Back` is received alone, outside an overload, and its case finds the left switch open. -/
def BackTaken (cfg : Conf) : Act → Prop
  | .step t i =>
    (t = .motor ∧ cfg.head t = some .motoRecv ∧ stalling cfg.trace = false ∧ cfg.state.moto.back = true →
      cfg.state.moto = .only .back) ∧
    (t = .motor ∧ cfg.head t = some (.pinRead .motoLeft) ∧ lastOp t cfg.trace = some (.mark (.motoCase .back)) →
      i.level = true)
  | .start _ _ => True

def OutcomeRule (cfg : Conf) (a : Act) : Prop :=
  CalledInTurn cfg a ∧ OverloadInCycle cfg a ∧ TimerAsideOverload cfg a ∧ BackTaken cfg a

instance (cfg : Conf) : ∀ a, Decidable (CalledInTurn cfg a)
  | .start _ _ => inferInstanceAs (Decidable (_ → _))
  | .step _ _ => isTrue trivial

instance (cfg : Conf) : ∀ a, Decidable (OutcomeRule cfg a)
  | .start _ _ => inferInstanceAs (Decidable ((_ → _) ∧ True ∧ (_ → _) ∧ True))
  | .step _ _ => inferInstanceAs (Decidable (True ∧ (_ → _) ∧ (_ → _) ∧ (_ → _) ∧ (_ → _)))

/-- The calls of a backwash, and the sensor's answers, which decide between two outcomes. -/
def cycleCalls : Call → Bool
  | .motoCycle _ | .expire .motoCycle | .motoEntry | .dataParsing _ => true
  | _ => false

variable {depth : Nat}

def account (depth : Nat) : Protocol (board cycleCalls depth) Duty where
  Rule := OutcomeRule
  Inv := fun gs s tr => Ledger (gs .lcd) (gs .timer) (gs .motor) (books s tr)
  At := fun _ c g => g = .idle ∨ c ≠ none

/-- A busy thread may have any duty. -/
theorem at_busy {t : Thread} {c : Call} (g : Duty) : (account depth).At t (some c) g := .inr (Option.some_ne_none c)

/-! ### The request -/

/-- One operation of the display thread. -/
theorem lcd_move {c : Call} {o : Op} {g m : Duty}
    (h : ∀ s tr i d x, Ledger g d x (books s tr) →
      Ledger m d x (books (exec .lcd o i s).1 (.did .lcd o i :: tr))) :
    (account depth).Outline .lcd c (perform o) g fun _ x => x = m := by
  refine Outline.move (at_busy _) (fun cfg gs i _ _ hg hold _ => ?_) fun _ => rfl
  exact h cfg.state cfg.trace i (gs .timer) (gs .motor) (hg ▸ hold.1)

theorem lcd_keep {c : Call} {α : Type} {p : Code α} {g : Duty} (hp : p.All fun o => unrecorded o = true) :
    (account depth).Outline .lcd c p g fun _ x => x = g := by
  refine Outline.keep (at_busy _) (hp.mono fun o ho cfg gs i _ _ _ hold _ => ?_) fun _ => rfl
  show Ledger _ _ _ (books (exec .lcd o i cfg.state).1 _)
  rw [books_other ho (by decide)]
  exact hold.1

theorem account_accept {c : Call} :
    (account depth).Outline .lcd c motoCycleAccept .calling fun _ x => x = .idle := by
  have hpost : (account depth).Outline .lcd c (motoSend .forward) .calling fun _ x => x = .accepted :=
    lcd_move fun s tr i d x h => h.accept
  refine Outline.seq (m := .calling) (lcd_keep ?_) fun _ => hpost.seq fun _ => ?_
  · exact All.bind (All.perform rfl) fun _ => All.perform (o := Op.timerStop .screenVcc) rfl
  refine (lcd_keep (All.perform rfl)).seq fun (n : Nat) => ?_
  refine (lcd_keep (All.perform (o := Op.timerControl .motoCycle (n * 1000)) rfl)).seq fun _ => ?_
  refine Outline.seq (m := .idle) ?_ fun _ => lcd_keep ?_
  · refine Outline.move (.inl rfl) (fun cfg gs i _ hhead hg hold hr => ?_) fun _ => rfl
    have hstop : stopping cfg.trace = false := hr.2.2.1 ⟨rfl, hhead⟩
    have hled : Ledger .accepted (gs .timer) (gs .motor) (books cfg.state cfg.trace) := hg ▸ hold.1
    exact hled.arm hstop
  · exact All.bind (All.perform rfl) fun _ => All.perform (o := Op.pinWrite .ledG false) rfl

theorem account_motoCycle (caller : Caller) {c : Call} :
    (account depth).Outline .lcd c (motoCycle caller) .calling fun _ x => x = .idle := by
  refine (lcd_keep (All.perform rfl)).seq fun _ => ?_
  refine Outline.seq (m := .calling) (lcd_keep ?_) fun _ => ?_
  · exact All.bind (All.perform rfl) fun _ => All.perform (o := Op.store (.rtcTime .automatic) 0) rfl
  refine Outline.seq (m := .calling) (lcd_keep ?_) fun supplied => ?_
  · simp only [motoCycleSupplied, getDcLevel]
    repeat' first
      | intro _ | with_reducible apply All.bind | with_reducible apply All.ite | with_reducible exact All.pure _
      | exact All.perform rfl
  refine Outline.ite (fun _ => ?_) fun _ => ?_
  · refine Outline.bind (R := fun working g => if working = 0 then g = .calling else g = .idle)
      (Outline.perform fun cfg gs i _ _ hg hold _ => ?_) fun (working : Nat) g hg => ?_
    · have hled : Ledger .calling (gs .timer) (gs .motor) (books cfg.state cfg.trace) := hg ▸ hold.1
      by_cases hw : cfg.state.vars .motoWorkFlag = 0
      · exact ⟨.calling, at_busy _, hled, by simp [board, exec, hw]⟩
      · exact ⟨.idle, .inl rfl, hled.hang_up, by simp [board, exec, hw]⟩
    · refine Outline.when (fun hw => ?_) fun hw => by simpa [hw] using hg
      rw [if_pos hw] at hg
      exact hg ▸ account_accept
  · exact Outline.seq (m := .calling) (lcd_keep (All.perform (o := Op.jumpSend .exit) rfl)) fun _ =>
      lcd_move fun s tr i d x h => h.hang_up

/-! ### The timer -/

theorem timer_move {c : Call} {o : Op} {g m : Duty}
    (h : ∀ s tr i l x, Ledger l g x (books s tr) →
      Ledger l m x (books (exec .timer o i s).1 (.did .timer o i :: tr))) :
    (account depth).Outline .timer c (perform o) g fun _ x => x = m := by
  refine Outline.move (at_busy _) (fun cfg gs i _ _ hg hold _ => ?_) fun _ => rfl
  exact h cfg.state cfg.trace i (gs .lcd) (gs .motor) (hg ▸ hold.1)

theorem timer_keep {c : Call} {α : Type} {p : Code α} {g : Duty} (hp : p.All fun o => unrecorded o = true) :
    (account depth).Outline .timer c p g fun _ x => x = g := by
  refine Outline.keep (at_busy _) (hp.mono fun o ho cfg gs i _ _ _ hold _ => ?_) fun _ => rfl
  show Ledger _ _ _ (books (exec .timer o i cfg.state).1 _)
  rw [books_other ho (by decide)]
  exact hold.1

theorem account_motoCycleTimerCallback {c : Call} :
    (account depth).Outline .timer c motoCycleTimerCallback .due fun _ x => x = .idle := by
  refine (timer_keep (All.perform rfl)).seq fun (right : Bool) => ?_
  refine Outline.ite (fun _ => timer_move fun s tr i l x h => h.post_back) fun _ => ?_
  have hfree : (account depth).Outline .timer c (motoSend .free) .due fun _ x => x = .due :=
    timer_move fun s tr i l x h => h.post_free
  have hreport : (account depth).Outline .timer c (jumpSend .nomoto) .due fun _ x => x = .idle :=
    timer_move fun s tr i l x h => h.report_due
  refine hfree.seq fun _ => Outline.seq (m := .due) (timer_keep ?_) fun _ => ?_
  · exact All.bind (All.perform rfl) fun _ => All.perform (o := Op.timerStart .screenVcc) rfl
  refine Outline.seq (m := .due) (timer_keep ?_) fun _ => hreport
  exact all_countUp rfl (fun _ => rfl) fun _ => all_flashSet rfl rfl rfl

/-! ### The motor thread -/

theorem motor_move {o : Op} {g m : Duty}
    (h : ∀ s tr i l d, Ledger l d g (books s tr) →
      Ledger l d m (books (exec .motor o i s).1 (.did .motor o i :: tr))) :
    (account depth).Outline .motor .motoEntry (perform o) g fun _ x => x = m := by
  refine Outline.move (at_busy _) (fun cfg gs i _ _ hg hold _ => ?_) fun _ => rfl
  exact h cfg.state cfg.trace i (gs .lcd) (gs .timer) (hg ▸ hold.1)

theorem motor_keep {α : Type} {p : Code α} {g : Duty} (hg : g ≠ .inBack) (hp : p.All fun o => unrecorded o = true) :
    (account depth).Outline .motor .motoEntry p g fun _ x => x = g := by
  refine Outline.keep (at_busy _) (hp.mono fun o ho cfg gs i _ _ hgs hold _ => ?_) fun _ => rfl
  show Ledger _ _ _ (books (exec .motor o i cfg.state).1 _)
  rw [books_unrecorded ho]
  exact Ledger.pass hold.1 (hgs ▸ hg) _

/-- The motor thread forgets what it knew. -/
theorem motor_forget {o : Op} {g : Duty} (ho : unrecorded o = true) (hg : g.Light) :
    (account depth).Outline .motor .motoEntry (perform o) g fun _ x => x = .idle := by
  refine motor_move fun s tr i l d h => ?_
  rw [books_unrecorded ho]
  exact (h.forget hg).pass nofun _

/-- A load of `MotoWorkFlag` that is good for the branch of duty `m`. -/
theorem motor_see {g m : Duty} {n : Nat} (hg : g.Light) (hm : m.Light) (hk : ∀ v : Books, v.flag = n → m.Knows v) :
    (account depth).Outline .motor .motoEntry (load .motoWorkFlag) g
      fun f x => if f = n then x = m else x = .idle := by
  refine Outline.perform fun cfg gs i _ _ hgs hold _ => ?_
  have hled : Ledger (gs .lcd) (gs .timer) g (books cfg.state cfg.trace) := hgs ▸ hold.1
  by_cases hf : cfg.state.vars .motoWorkFlag = n
  · refine ⟨m, at_busy _, ?_, by simp [exec, hf]⟩
    refine (hled.know hg hm (hk _ hf)).pass (fun e => ?_) _
    subst e
    cases hm.1
  · exact ⟨.idle, .inl rfl, (hled.forget hg).pass nofun _, by simp [exec, hf]⟩

theorem account_rightLimit :
    (account depth).Outline .motor .motoEntry rightLimit .sawForward fun _ x => x = .idle := by
  have hfree : (account depth).Outline .motor .motoEntry (motoSend .free) .sawForward fun _ x => x = .sawForward :=
    motor_move fun s tr i l d h => h.right_free.pass nofun _
  have hflag : (account depth).Outline .motor .motoEntry (store .motoWorkFlag 0) .sawForward fun _ x => x = .idle :=
    motor_move fun s tr i l d h => by
      have hk : s.vars .motoWorkFlag = 1 := h.knows
      exact (h.set_flag (by decide) (n := 0) (by simp [books, hk]) (by decide)).pass nofun _
  refine hfree.seq fun _ => (motor_keep (by decide) (All.perform rfl)).seq fun _ => ?_
  refine (motor_keep (by decide) (All.perform rfl)).seq fun _ => ?_
  refine hflag.seq fun _ => motor_keep (by decide) ?_
  exact All.bind (all_tdsWork rfl rfl rfl) fun _ => All.bind (All.perform rfl) fun _ =>
    All.bind (all_tdsWork rfl rfl rfl) fun _ => All.pure _

theorem account_leftLimit :
    (account depth).Outline .motor .motoEntry leftLimit .sawReturn fun _ x => x = .idle := by
  have hflag : (account depth).Outline .motor .motoEntry (store .motoWorkFlag 0) .sawReturn fun _ x => x = .owes :=
    motor_move fun s tr i l d h => h.left_stop.pass nofun _
  have hreport : ∀ b, isOutcome b = true →
      (account depth).Outline .motor .motoEntry (jumpSend b) .owes fun _ x => x = .idle := by
    intro b hb
    refine motor_move fun s tr i l d h => ?_
    cases b <;> first | exact h.report.pass nofun _ | cases hb
  refine (motor_keep (by decide) (All.perform rfl)).seq fun _ => ?_
  refine (motor_keep (by decide) (All.perform rfl)).seq fun _ => hflag.seq fun _ => ?_
  refine Outline.seq (m := .owes) (motor_keep (by decide) ?_) fun _ => ?_
  · exact All.bind (All.perform rfl) fun _ => All.perform (o := Op.timerStart .screenVcc) rfl
  refine (motor_keep (by decide) (All.perform rfl)).seq fun (tds : Nat) => ?_
  refine (motor_keep (by decide) (All.perform rfl)).seq fun (hardness : Nat) => ?_
  exact Outline.ite (fun _ => hreport .tds rfl) fun _ => hreport .finish rfl

theorem account_overload {g : Duty} (hg : g = .stallReturn ∨ g = .stall) :
    (account depth).Outline .motor .motoEntry motoOverload g fun _ x => x = .freed := by
  have hin : g ≠ .inBack := by rcases hg with rfl | rfl <;> decide
  have hflag : (account depth).Outline .motor .motoEntry (store .motoWorkFlag 0) g
      fun _ x => x = .stallOwes ∨ x = .stall := by
    rcases hg with rfl | rfl
    · exact (motor_move fun s tr i l d h => h.stall_return.pass nofun _).mono fun _ _ e => .inl e
    · exact (motor_move fun s tr i l d h => h.stall_flag.pass nofun _).mono fun _ _ e => .inr e
  have hreport : ∀ {x}, (x = .stallOwes ∨ x = .stall) →
      (account depth).Outline .motor .motoEntry (jumpSend .stalling) x fun _ y => y = .stalled :=
    fun hx => motor_move fun s tr i l d h => (h.report_overload hx).pass nofun _
  have hstop : (account depth).Outline .motor .motoEntry (timerStop .motoCycle) .stalled fun _ x => x = .stopped :=
    motor_move fun s tr i l d h => h.stop_timer
  have hfree : (account depth).Outline .motor .motoEntry (motoSend .free) .stopped fun _ x => x = .freed :=
    motor_move fun s tr i l d h => h.overload_free.pass nofun _
  refine (motor_keep hin (All.perform rfl)).seq fun _ => (motor_keep hin (All.perform rfl)).seq fun _ => ?_
  refine hflag.bind fun _ x hx => Outline.seq (m := .stalled) ?_ fun _ => hstop.seq fun _ => hfree.seq fun _ => ?_
  · refine Outline.seq (m := x) (motor_keep (by rcases hx with rfl | rfl <;> decide) ?_) fun _ => hreport hx
    exact all_countUp rfl (fun _ => rfl) fun _ => all_flashSet rfl rfl rfl
  · exact motor_keep (by decide) (All.bind (All.perform rfl) fun _ => All.perform (o := Op.timerStart .screenVcc) rfl)

theorem account_release :
    (account depth).Outline .motor .motoEntry motoFreeEventRelease .idle
      fun _ x => x = .idle ∨ x = .sawReturn := by
  refine (motor_keep (by decide) (All.perform rfl)).seq fun (left : Bool) => ?_
  refine (motor_keep (by decide) (All.perform (o := Op.store .leftStatus left.toNat) rfl)).seq fun _ => ?_
  refine (motor_keep (by decide) (All.perform rfl)).seq fun (right : Bool) => ?_
  refine (motor_keep (by decide) (All.perform (o := Op.store .rightStatus right.toNat) rfl)).seq fun _ => ?_
  refine (motor_keep (by decide) (All.perform rfl)).seq fun (r : Nat) => ?_
  refine (motor_see (m := .sawForward) (n := 1) (by decide) (by decide) fun _ => id).bind
    fun (f : Nat) g hg => ?_
  refine Outline.bind (R := fun _ x => x = .idle ∨ x = .sawForward) (Outline.when (fun hc => ?_) fun _ => ?_)
    fun _ x hx => ?_
  · rw [if_pos hc.2] at hg
    subst hg
    exact account_rightLimit.mono fun _ _ e => .inl e
  · split at hg
    · exact .inr hg
    · exact .inl hg
  have hlight : x.Light := by rcases hx with rfl | rfl <;> decide
  refine (motor_forget rfl hlight).seq fun (l : Nat) => ?_
  refine (motor_see (m := .sawReturn) (n := 2) (by decide) (by decide) fun _ => id).bind
    fun (f : Nat) g hg => ?_
  refine Outline.when (fun hc => ?_) fun _ => ?_
  · rw [if_pos hc.2] at hg
    subst hg
    exact account_leftLimit.mono fun _ _ e => .inl e
  · split at hg
    · exact .inr hg
    · exact .inl hg

theorem account_poll :
    (account depth).Outline .motor .motoEntry motoPoll .idle fun _ x => x = .idle ∨ x = .freed := by
  refine (motor_keep (by decide) (All.perform rfl)).seq fun (working : Nat) => ?_
  refine Outline.when (fun _ => ?_) fun _ => .inl rfl
  refine account_release.bind fun _ x hx => ?_
  have hlight : x.Light := by rcases hx with rfl | rfl <;> decide
  refine Outline.bind
    (R := fun voltage g => if voltage > 200 then g = .stallReturn ∨ g = .stall else g = .idle)
    (Outline.perform fun cfg gs i _ hhead hgs hold hr => ?_) fun (voltage : Nat) g hg => ?_
  · have hled : Ledger (gs .lcd) (gs .timer) x (books cfg.state cfg.trace) := hgs ▸ hold.1
    have hm := hled.measure hlight (decide (i.value > 200)) fun hv => hr.2.1 ⟨rfl, hhead, by simpa using hv⟩
    refine ⟨if decide (i.value > 200) then if (books cfg.state cfg.trace).flag = 2 then .stallReturn else .stall
      else .idle, at_busy _, hm, ?_⟩
    by_cases hv : i.value > 200
    · simp only [board_exec, exec, hv, decide_true, if_true]
      split
      · exact .inl rfl
      · exact .inr rfl
    · simp [exec, hv]
  · refine Outline.when (fun hv => ?_) fun hv => ?_
    · rw [if_pos hv] at hg
      exact (account_overload hg).mono fun _ _ e => .inr e
    · rw [if_neg hv] at hg
      exact .inl hg

/-- What the motor thread's duty is after a receive. -/
def Received (e : MotoBits) (g : Duty) : Prop :=
  (e = .only .back → g = .gotBack) ∧
  (e ≠ .only .back → g = .dispatch ∨ (g = .idle ∧ e ≠ .only .free ∧ e ≠ .only .forward))

theorem account_receive {x : Duty} (hx : x = .idle ∨ x = .freed) :
    (account depth).Outline .motor .motoEntry motoRecv x Received := by
  refine Outline.perform fun cfg gs i _ hhead hgs hold hr => ?_
  have hled : Ledger (gs .lcd) (gs .timer) x (books cfg.state cfg.trace) := hgs ▸ hold.1
  rcases hx with rfl | rfl
  · by_cases hb : cfg.state.moto.back = true
    · have hs : stalling cfg.trace = false := hled.calm rfl
      have halone := hr.2.2.2.1 ⟨rfl, hhead, hs, hb⟩
      exact ⟨.gotBack, at_busy _, hled.receive_back hb, fun _ => rfl, fun hne => absurd halone hne⟩
    · have hb' : cfg.state.moto.back = false := by simpa using hb
      refine ⟨if cfg.state.moto.free = true ∨ cfg.state.moto.forward = true then .dispatch else .idle, at_busy _,
        hled.receive_other hb', fun e => ?_, fun _ => ?_⟩
      · have e' : cfg.state.moto = .only .back := e
        rw [e'] at hb
        exact absurd rfl hb
      · split
        · exact .inl rfl
        · next hn =>
          refine .inr ⟨rfl, fun e => hn (.inl ?_), fun e => hn (.inr ?_)⟩
          · have e' : cfg.state.moto = .only .free := e
            rw [e']
            rfl
          · have e' : cfg.state.moto = .only .forward := e
            rw [e']
            rfl
  · have hfree : cfg.state.moto.free = true := hled.knows.2.2
    refine ⟨.dispatch, at_busy _, hled.receive_freed, fun e => ?_, fun _ => .inl rfl⟩
    have e' : cfg.state.moto = .only .back := e
    rw [e'] at hfree
    cases hfree

/-- A case that writes the flag outside return travel. -/
theorem motor_set_flag {n : Nat} (hn : n % 2 ^ 8 ≠ 2) :
    (account depth).Outline .motor .motoEntry (store .motoWorkFlag n) .dispatch fun _ x => x = .idle :=
  motor_move fun s tr i l d h => (h.set_flag (by decide) h.knows hn).pass nofun _

theorem account_free : (account depth).Outline .motor .motoEntry motoCaseFree .dispatch fun _ x => x = .idle :=
  (motor_keep (by decide) (All.perform rfl)).seq fun _ => (motor_keep (by decide) (All.perform rfl)).seq fun _ =>
    (motor_keep (by decide) (All.perform rfl)).seq fun _ => motor_set_flag (by decide)

theorem account_forward :
    (account depth).Outline .motor .motoEntry motoCaseForward .dispatch fun _ x => x = .idle := by
  refine (motor_keep (by decide) (All.perform rfl)).seq fun _ => ?_
  refine (motor_keep (by decide) (All.perform rfl)).seq fun (right : Bool) => ?_
  refine Outline.ite (fun _ => ?_) fun _ => motor_set_flag (by decide)
  exact (motor_keep (by decide) (All.perform rfl)).seq fun _ => (motor_keep (by decide) (All.perform rfl)).seq fun _ =>
    motor_set_flag (by decide)

theorem account_back :
    (account depth).Outline .motor .motoEntry motoCaseBack .gotBack fun _ x => x = .idle := by
  have hmark : (account depth).Outline .motor .motoEntry (mark (.motoCase .back)) .gotBack fun _ x => x = .inBack :=
    motor_move fun s tr i l d h => h.enter_back
  have hflag : (account depth).Outline .motor .motoEntry (store .motoWorkFlag 2) .gotBack fun _ x => x = .idle :=
    motor_move fun s tr i l d h => h.go_back.pass nofun _
  refine hmark.seq fun _ => Outline.bind (R := fun left g => left = true ∧ g = .gotBack)
    (Outline.perform fun cfg gs i _ hhead hgs hold hr => ?_) fun (left : Bool) g hg => ?_
  · have hled : Ledger (gs .lcd) (gs .timer) .inBack (books cfg.state cfg.trace) := hgs ▸ hold.1
    have hcase : lastOp .motor cfg.trace = some (.mark (.motoCase .back)) := of_decide_eq_true hled.knows
    exact ⟨.gotBack, at_busy _, hled.read_left, hr.2.2.2.2 ⟨rfl, hhead, hcase⟩, rfl⟩
  · obtain ⟨hl, rfl⟩ := hg
    refine Outline.when (fun _ => ?_) fun hn => absurd hl hn
    exact (motor_keep (by decide) (All.perform rfl)).seq fun _ => (motor_keep (by decide) (All.perform rfl)).seq fun _ => hflag

theorem account_motoEntry :
    (account depth).Outline .motor .motoEntry motoEntry .idle fun _ x => x = .idle := by
  refine account_poll.bind fun _ x hx => (account_receive hx).bind fun (e : MotoBits) g hg => ?_
  refine Outline.bind (R := fun _ x => x = .idle ∨ x = .dispatch) ?_ fun _ x hx =>
    motor_forget rfl (by rcases hx with rfl | rfl <;> decide)
  by_cases hback : e = .only .back
  · subst hback
    rw [hg.1 rfl]
    exact account_back.mono fun _ _ e => .inl e
  · have hg' := hg.2 hback
    have hkeep : g = .idle ∨ g = .dispatch := hg'.elim .inr fun h => .inl h.1
    refine Outline.when (fun _ => ?_) fun _ => hkeep
    refine Outline.ite (fun hfree => ?_) fun _ => Outline.ite (fun hforward => ?_) fun _ => ?_
    · rw [hg'.resolve_right fun h => h.2.1 hfree]
      exact account_free.mono fun _ _ e => .inl e
    · rw [hg'.resolve_right fun h => h.2.2 hforward]
      exact account_forward.mono fun _ _ e => .inl e
    · exact Outline.ite (fun h => absurd h hback) fun _ => hkeep

/-- The sensor's parser moves nothing that the books record. -/
theorem unrecorded_of_serialMay {o : Op} (h : may .serial o = true) : unrecorded o = true := by
  cases o with
  | store v n => cases v <;> first | rfl | cases h
  | load v => rfl
  | mdelay n => rfl
  | _ => cases h

theorem account_begins (c : Call) (hc : cycleCalls c = true) : (account depth).Begins c.thread c := by
  have hidle : ∀ x, (account depth).At c.thread none x → x = .idle := fun x hx => by simpa [account] using hx
  cases c with
  | motoEntry =>
    refine begins_outline hidle (.inl rfl) (fun cfg gs hold _ hg _ => ?_) ?_
    · have hled : Ledger (gs .lcd) (gs .timer) .idle (books cfg.state cfg.trace) :=
        (show gs .motor = .idle from hg) ▸ hold.1
      show Ledger (gs .lcd) (gs .timer) (gs .motor) _
      rw [show gs .motor = .idle from hg]
      exact hled.measure (by decide) false fun e => absurd e Bool.false_ne_true
    · exact account_motoEntry.mono fun _ _ e => .inl e
  | expire x =>
    cases x with
    | motoCycle =>
      intro cfg gs hnone hready hold hr
      have hg : gs .timer = .idle := hidle _ (by
        have := hold.2 .timer
        rwa [show cfg.call .timer = none by simp [Config.call, show cfg.task .timer = none from hnone]] at this)
      have harmed : cfg.state.armed .motoCycle = true := by simpa [board, cycleCalls, Call.enabled] using hready
      have hled : Ledger (gs .lcd) .idle (gs .motor) (books cfg.state cfg.trace) := hg ▸ hold.1
      refine ⟨.due, at_busy _, hled.expire harmed (hr.2.2.1 rfl), ?_⟩
      exact account_motoCycleTimerCallback.mono fun _ _ e => .inl e
    | _ => cases hc
  | motoCycle caller =>
    intro cfg gs hnone hready hold hr
    have hg : gs .lcd = .idle := hidle _ (by
      have := hold.2 .lcd
      rwa [show cfg.call .lcd = none by simp [Config.call, show cfg.task .lcd = none from hnone]] at this)
    have hled : Ledger .idle (gs .timer) (gs .motor) (books cfg.state cfg.trace) := hg ▸ hold.1
    refine ⟨.calling, at_busy _, hled.call (hr.1 rfl), ?_⟩
    exact (account_motoCycle caller).mono fun _ _ e => .inl e
  | dataParsing ch =>
    refine begins_quiet hidle (fun _ => .inl rfl) (fun cfg gs hold _ _ _ => ?_) fun o ho cfg gs i _ _ _ hold _ => ?_
    · show Ledger (gs .lcd) (gs .timer) (gs .motor) (books cfg.state (.began .serial (.dataParsing ch) :: cfg.trace))
      exact hold.1
    · show Ledger _ _ _ (books (exec .serial o i cfg.state).1 (.did .serial o i :: cfg.trace))
      rw [books_other (unrecorded_of_serialMay ho) (by decide)]
      exact hold.1
  | _ => cases hc

/-! ### One outcome for each cycle -/

/-- The motor side is at rest, with no call part-way. -/
def Quiescent (cfg : Conf) : Prop :=
  cfg.state.vars .motoWorkFlag = 0 ∧ cfg.state.moto = .empty ∧ cfg.state.armed .motoCycle = false ∧
    ∀ t ∈ [Thread.lcd, .timer, .motor], (cfg.task t).isNone = true

/-- No more outcomes than accepted cycles, and as many whenever the motor side rests. -/
def OneOutcome (cfg : Conf) : Prop :=
  outcomes cfg.trace ≤ accepted cfg.trace ∧ (Quiescent cfg → outcomes cfg.trace = accepted cfg.trace)

/-- Every backwash reports exactly one outcome in a run that keeps to the rules. -/
theorem one_outcome (depth : Nat) (flash : Nat → Nat) (as : List Act)
    (h : (board cycleCalls depth).Admits OutcomeRule (start flash) as) :
    OneOutcome ((board cycleCalls depth).run (start flash) as) := by
  have hbooks : Ledger .idle .idle .idle (books (boot flash) []) := by
    refine ⟨?_, by simp [books, accepted], nofun, fun hf => ?_, nofun, trivial, fun _ => rfl⟩
    · simp [books, accepted, outcomes, owed, boot_motoWorkFlag, boot_moto, Device.armed, boot_timer, powerOn,
        Duty.weight, MotoBits.empty]
    · simp [books, boot_motoWorkFlag]
  have hstart : (account depth).Good (fun _ => .idle) (start flash) := Good.boot hbooks fun _ => .inl rfl
  obtain ⟨gs, hgood⟩ := run_good (begins_board account_begins) hstart h
  have hled : Ledger (gs .lcd) (gs .timer) (gs .motor) _ := hgood.1
  refine ⟨Nat.le_trans (Nat.le_add_right _ _) (Nat.le_of_eq hled.count.symm), fun hq => ?_⟩
  obtain ⟨hflag, hmoto, harmed, hnone⟩ := hq
  have hidle : ∀ t ∈ [Thread.lcd, .timer, .motor], gs t = .idle := fun t ht => by
    simpa [account] using hgood.idle (Option.isNone_iff_eq_none.mp (hnone t ht))
  rw [hidle .lcd (by simp), hidle .timer (by simp), hidle .motor (by simp)] at hled
  exact hled.settled hflag (by simp [books, hmoto, MotoBits.empty]) harmed

/-- The sensor answers that the hardness is 1000. -/
def answer : List Act :=
  [0x55, 0x07, 0x05, 0x01, 0x27, 0x10, 0, 0, 0, 0, 0x62].flatMap fun ch => alone (.dataParsing ch) {} 12

/-- A whole backwash, after which the water is still too hard. -/
theorem one_outcome_cycle :
    ((board cycleCalls 0).run (start fun _ => 0) (toReturn ++ answer ++ leftPass 0)).state.jump = .only .tds ∧
    (board cycleCalls 0).Admits OutcomeRule (start fun _ => 0) (toReturn ++ answer ++ leftPass 0) ∧
    OneOutcome ((board cycleCalls 0).run (start fun _ => 0) (toReturn ++ answer ++ leftPass 0)) :=
  ⟨by decide +kernel, by decide +kernel, one_outcome 0 (fun _ => 0) (toReturn ++ answer ++ leftPass 0) (by decide +kernel)⟩

/-- A left limit and an overload in one pass report twice. -/
theorem two_outcomes_left_overload :
    (board cycleCalls 0).Admits CalledInTurn (start fun _ => 0) (toReturn ++ leftPass 201) ∧
    ¬ OneOutcome ((board cycleCalls 0).run (start fun _ => 0) (toReturn ++ leftPass 201)) := by
  refine ⟨by decide +kernel, fun h => absurd h.1 (by decide +kernel)⟩

end Backwash.Motor
