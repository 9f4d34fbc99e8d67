import Backwash.Motor.Commands
import Backwash.Motor.Cycle

/-! Stop mode and the backwash.

Two timers lead to stop mode: the screen's supply timer, which every key, every
reminder and every outcome starts again, and the low-power timer, which a quiet
hourly check starts. A request stops the first before it posts `Forward`; nothing
else keeps the controller awake. -/
namespace Backwash.Sleep
open Concurrent Prog Protocol Firmware Motor

/-! ### The watch -/

/-- The event belongs to `EnterLowPower`, up to stop mode. -/
def sleeps : Event Op Thread Call Input → Bool
  | .did _ (.mark .enterLowPower) _ | .did _ .stop2 _ => true
  | _ => false

/-- `EnterLowPower` was executed while a backwash was in progress. -/
def sleptInCycle : Trace → Bool
  | [] => false
  | e :: tr => (sleeps e && inProgress tr) || sleptInCycle tr

/-- The motor thread has started the screen timers at the left limit, or is about
to compare the sensor with the setting. -/
def refreshed (tr : Trace) : Bool :=
  match lastOp .motor tr with
  | some (.timerStart .screenVcc) | some (.load .tdsValue) | some (.load .settingHardness) => true
  | _ => false

/-- What keeping awake depends on. -/
structure Watch where
  cycle : Bool
  slept : Bool
  vcc : Bool
  low : Bool
  refreshed : Bool
  overloaded : Bool

def watch (s : Device) (tr : Trace) : Watch :=
  ⟨inProgress tr, sleptInCycle tr, s.armed .screenVcc, s.armed .lowPower, refreshed tr, overloaded tr⟩

/-- Where the timer thread and the motor thread are. -/
inductive Place where
  | idle
  -- the timer thread: on its way to stop mode, or about to report that there is no motor
  | sleeping | nomoto
  -- the motor thread: about to report at the left limit, or in the overload branch
  | left | stall
  deriving DecidableEq

structure Awake (d m : Place) (v : Watch) : Prop where
  slept : v.slept = false
  low : v.cycle = true → v.low = false
  vcc : v.cycle = true → v.vcc = false ∨ m = .left ∨ d = .nomoto
  sleeping : d = .sleeping → v.cycle = false
  left : m = .left → v.refreshed = true
  stall : m = .stall → v.overloaded = true

/-! ### The rule -/

/-- The timer thread is in a callback that leads to stop mode. -/
def towardsSleep : Option Call → Bool
  | some (.expire .screenVcc) | some (.expire .lowPower) => true
  | _ => false

/-- When a backwash is accepted neither timer runs and none has just expired; while
it is in progress neither is started, but for the screen timers of an outcome; and
those do not expire before the outcome at the left limit is posted. -/
def AwakeRule (cfg : Conf) : Act → Prop
  | .step t _ =>
    (t = .lcd ∧ cfg.head t = some (.motoSend .forward) →
      cfg.state.armed .screenVcc = false ∧ cfg.state.armed .lowPower = false ∧
        towardsSleep (cfg.call .timer) = false) ∧
    (inProgress cfg.trace = true ∧ cfg.head t = some (.timerStart .screenVcc) →
      t = .timer ∨ (t = .motor ∧ overloaded cfg.trace = false)) ∧
    ¬ (inProgress cfg.trace = true ∧ cfg.head t = some (.timerStart .lowPower))
  | .start _ c => ¬ (c = .expire .screenVcc ∧ inProgress cfg.trace = true ∧ refreshed cfg.trace = true)

instance (cfg : Conf) : ∀ a, Decidable (AwakeRule cfg a)
  | .step _ _ => inferInstanceAs (Decidable (_ ∧ _))
  | .start _ _ => inferInstanceAs (Decidable (¬ _))

/-- Everything but the shell and a bare `EnterLowPower`. -/
def fieldCalls : Call → Bool
  | .shell _ | .enterLowPower => false
  | _ => true

variable {depth : Nat}

def awake (depth : Nat) : Protocol (board fieldCalls depth) Place where
  Rule := AwakeRule
  Inv := fun gs s tr => Awake (gs .timer) (gs .motor) (watch s tr)
  At := fun t c g => g = .idle ∨ (c ≠ none ∧ (t = .timer ∨ t = .motor) ∧ (g = .sleeping → towardsSleep c = true))

/-! ### What an operation changes -/

/-- The operation is of no concern to the watch. -/
def unwatched : Op → Bool
  | .motoSend b => b != .forward
  | .jumpSend b => !isOutcome b
  | .mark m => m != .enterLowPower
  | .stop2 => false
  | .timerStart x | .timerStop x => x != .screenVcc && x != .lowPower
  | .adcRead c => c != .moto
  | _ => true

section
variable {t : Thread} {o : Op} {i : Input} {s : Device} {tr : Trace}

theorem refreshed_other (ht : t ≠ .motor) : refreshed (.did t o i :: tr) = refreshed tr := by
  simp only [refreshed, lastOp_did_of_ne ht]

theorem overloaded_did (h : o ≠ .adcRead .moto) : overloaded (.did t o i :: tr) = overloaded tr := by
  have hne : (o == .adcRead .moto) = false := by simpa using h
  simp only [overloaded, hne, Bool.and_false, Bool.false_and, Bool.false_or]

/-- An operation that neither accepts nor reports nor sleeps nor measures. -/
theorem watch_silent (ha : o ≠ .motoSend .forward) (hp : ∀ b, o = .jumpSend b → isOutcome b = false)
    (hm : o ≠ .mark .enterLowPower) (hs : o ≠ .stop2) (hv : o ≠ .adcRead .moto) :
    watch (exec t o i s).1 (.did t o i :: tr) = {watch s tr with
      refreshed := refreshed (.did t o i :: tr)
      vcc := (exec t o i s).1.armed .screenVcc
      low := (exec t o i s).1.armed .lowPower} := by
  have hsleep : sleeps (.did t o i) = false := by
    unfold sleeps
    split
    · next heq => cases heq; exact absurd rfl hm
    · next heq => cases heq; exact absurd rfl hs
    · rfl
  simp only [watch, inProgress, sleptInCycle, accepts_did ha, reports_did hp, hsleep, overloaded_did hv, Bool.false_or,
    Bool.not_false, Bool.true_and, Bool.false_and]

theorem watch_timer {x : Timer} (ho : o = .timerStart x ∨ o = .timerStop x) :
    watch (exec t o i s).1 (.did t o i :: tr) = {watch s tr with
      refreshed := refreshed (.did t o i :: tr)
      vcc := (exec t o i s).1.armed .screenVcc
      low := (exec t o i s).1.armed .lowPower} := by
  rcases ho with rfl | rfl
  · exact watch_silent nofun nofun nofun nofun nofun
  · exact watch_silent nofun nofun nofun nofun nofun

theorem watch_unwatched (ho : unwatched o = true) :
    watch (exec t o i s).1 (.did t o i :: tr) = {watch s tr with refreshed := refreshed (.did t o i :: tr)} := by
  rw [watch_silent (fun e => by rw [e] at ho; cases ho) (fun b e => by rw [e] at ho; simpa [unwatched] using ho)
    (fun e => by rw [e] at ho; cases ho) (fun e => by rw [e] at ho; cases ho) (fun e => by rw [e] at ho; cases ho)]
  rw [exec_armed (fun e => by rw [e] at ho; cases ho) (fun e => by rw [e] at ho; cases ho),
    exec_armed (fun e => by rw [e] at ho; cases ho) (fun e => by rw [e] at ho; cases ho)]
  rfl

theorem watch_other (ho : unwatched o = true) (ht : t ≠ .motor) :
    watch (exec t o i s).1 (.did t o i :: tr) = watch s tr := by
  rw [watch_unwatched ho, refreshed_other ht]
  rfl

theorem armed_timerStop (x y : Timer) (h : s.armed y = false) : (exec t (.timerStop x) i s).1.armed y = false := by
  by_cases hx : x = y
  · subst hx
    simp [exec, Device.armed, Device.stopTimer, Device.setTimer]
  · rw [exec_armed (by simp) (by simpa using hx), h]

end

namespace Awake
variable {d m : Place} {v : Watch}

/-- With no backwash in progress the timers may run. -/
theorem calm (h : Awake d m v) (hc : v.cycle = false) (a b : Bool) : Awake d m {v with vcc := a, low := b} :=
  ⟨h.slept, fun e => by simp [hc] at e, fun e => by simp [hc] at e, h.sleeping, h.left, h.stall⟩

/-- Timers may be stopped at any time. -/
theorem stop (h : Awake d m v) {a b : Bool} (ha : v.vcc = false → a = false) (hb : v.low = false → b = false) :
    Awake d m {v with vcc := a, low := b} :=
  ⟨h.slept, fun e => hb (h.low e), fun e => (h.vcc e).imp_left ha, h.sleeping, h.left, h.stall⟩

/-- A request is accepted with both timers stopped and the timer thread awake. -/
theorem accept (h : Awake d m v) (ha : v.vcc = false) (hb : v.low = false) (hd : d ≠ .sleeping) :
    Awake d m {v with cycle := true} :=
  ⟨h.slept, fun _ => hb, fun _ => .inl ha, fun e => absurd e hd, h.left, h.stall⟩

/-- An outcome is posted. -/
theorem report {d' m' : Place} (h : Awake d m v) (hm : m' = .left → m = .left) (hm' : m' = .stall → m = .stall) :
    Awake d' m' {v with cycle := false} :=
  ⟨h.slept, nofun, nofun, fun _ => rfl, fun e => h.left (hm e), fun e => h.stall (hm' e)⟩

end Awake

/-! ### Threads that only start timers or accept -/

theorem sleeping_call {gs : Thread → Place} {cfg : Conf} (hold : (awake depth).Holds gs cfg)
    (h : towardsSleep (cfg.call .timer) = false) : gs .timer ≠ .sleeping := by
  intro e
  rcases hold.2 .timer with hi | ⟨-, -, hs⟩
  · rw [hi] at e
    cases e
  · rw [hs e] at h
    cases h

theorem other_keeps {t : Thread} {c : Call} {o : Op} (ht : t ≠ .timer ∧ t ≠ .motor ∧ t ≠ .shell)
    (hmay : may t o = true) : (awake depth).Keeps t c .idle o := by
  intro cfg gs i _ hhead _ hold hr
  have hinv : Awake (gs .timer) (gs .motor) (watch cfg.state cfg.trace) := hold.1
  show Awake (gs .timer) (gs .motor) (watch (exec t o i cfg.state).1 (.did t o i :: cfg.trace))
  by_cases ho : unwatched o = true
  · rw [watch_other ho ht.2.1]
    exact hinv
  cases o with
  | motoSend b =>
    -- only the display thread accepts
    obtain rfl : b = .forward := by simpa [unwatched] using ho
    obtain rfl : t = .lcd := by
      cases t <;> simp_all [may, buttonMay, rtcCheckMay, serialMay, batteryMay, irqMay]
    obtain ⟨hvcc, hlow, hcall⟩ := hr.1 ⟨rfl, hhead⟩
    exact hinv.accept hvcc hlow (sleeping_call hold hcall)
  | timerStart x =>
    have hx : x = .screenVcc ∨ x = .lowPower := by simpa [unwatched, or_iff_not_imp_left] using ho
    have hcycle : inProgress cfg.trace = false := by
      by_contra hn
      have hc : inProgress cfg.trace = true := by simpa using hn
      rcases hx with rfl | rfl
      · rcases hr.2.1 ⟨hc, hhead⟩ with e | ⟨e, -⟩
        · exact ht.1 e
        · exact ht.2.1 e
      · exact hr.2.2 ⟨hc, hhead⟩
    rw [watch_timer (.inl rfl), refreshed_other ht.2.1]
    exact hinv.calm hcycle _ _
  | timerStop x =>
    rw [watch_timer (.inr rfl), refreshed_other ht.2.1]
    exact hinv.stop (armed_timerStop x _) (armed_timerStop x _)
  | jumpSend b =>
    cases t <;> cases b <;>
      simp_all [may, lcdMay, buttonMay, rtcCheckMay, serialMay, batteryMay, irqMay, unwatched, isOutcome]
  | mark m =>
    obtain rfl : m = .enterLowPower := by simpa [unwatched] using ho
    cases t <;> simp_all [may, lcdMay, buttonMay, rtcCheckMay, serialMay, batteryMay, irqMay]
  | stop2 => cases t <;> simp_all [may, lcdMay, buttonMay, rtcCheckMay, serialMay, batteryMay, irqMay]
  | adcRead c =>
    obtain rfl : c = .moto := by simpa [unwatched] using ho
    cases t <;> simp_all [may, lcdMay, buttonMay, rtcCheckMay, serialMay, batteryMay, irqMay]
  | _ => exact absurd rfl ho

/-! ### The timer thread -/

theorem watch_keep_timer {c : Call} {α : Type} {p : Code α} {g : Place} (hat : (awake depth).At .timer (some c) g)
    (hp : p.All fun o => unwatched o = true) : (awake depth).Outline .timer c p g fun _ x => x = g := by
  refine Outline.keep hat (hp.mono fun o ho cfg gs i _ _ _ hold _ => ?_) fun _ => rfl
  show Awake (gs .timer) (gs .motor) (watch (exec .timer o i cfg.state).1 _)
  rw [watch_other ho (by decide)]
  exact hold.1

theorem watch_move_timer {c : Call} {o : Op} {g m : Place} (hat : (awake depth).At .timer (some c) m)
    (h : ∀ s tr i x, Awake g x (watch s tr) → Awake m x (watch (exec .timer o i s).1 (.did .timer o i :: tr))) :
    (awake depth).Outline .timer c (perform o) g fun _ x => x = m :=
  Outline.move hat (fun cfg gs i _ _ hg hold _ => h cfg.state cfg.trace i (gs .motor) (hg ▸ hold.1)) fun _ => rfl

theorem at_sleeping {c : Call} (hc : towardsSleep (some c) = true) :
    (awake depth).At .timer (some c) .sleeping := .inr ⟨nofun, .inl rfl, fun _ => hc⟩

/-- On the way to stop mode nothing is accepted. -/
theorem awake_enterLowPower {c : Call} (hc : towardsSleep (some c) = true) :
    (awake depth).Outline .timer c enterLowPower .sleeping fun _ x => x = .idle := by
  have hat : (awake depth).At .timer (some c) .sleeping := at_sleeping hc
  have hmark : (awake depth).Outline .timer c (mark .enterLowPower) .sleeping fun _ x => x = .sleeping := by
    refine watch_move_timer hat fun s tr i x h => ⟨?_, h.low, h.vcc, h.sleeping, h.left, h.stall⟩
    have hcycle : inProgress tr = false := h.sleeping rfl
    have hslept : sleptInCycle tr = false := h.slept
    simp [watch, sleptInCycle, hcycle, hslept]
  have hstop : (awake depth).Outline .timer c stop2 .sleeping fun _ x => x = .idle := by
    refine watch_move_timer (.inl rfl) fun s tr i x h => ?_
    have hcycle : inProgress tr = false := h.sleeping rfl
    have hslept : sleptInCycle tr = false := h.slept
    have hcycle' : inProgress (.did .timer .stop2 i :: tr) = false := hcycle
    refine ⟨?_, fun e => absurd (hcycle'.symm.trans e) nofun, fun e => absurd (hcycle'.symm.trans e) nofun, nofun,
      h.left, h.stall⟩
    simp [watch, sleptInCycle, hcycle, hslept]
  refine hmark.seq fun _ => Outline.seq (m := .sleeping) (watch_keep_timer hat ?_) fun _ => ?_
  · exact built_beforSleep (All.compositional _) (fun p _ _ => All.perform (by cases p <;> rfl)) (All.perform rfl)
  refine (watch_keep_timer hat (All.perform rfl)).seq fun _ => hstop.seq fun _ => watch_keep_timer (.inl rfl) ?_
  exact All.bind (All.perform rfl) fun _ => All.bind (built_afterWake (All.compositional _) fun p _ _ _ =>
    All.perform (by cases p <;> rfl)) fun _ => All.when (all_jumptoMainWin rfl rfl rfl)

theorem awake_motoCycleTimerCallback {c : Call} :
    (awake depth).Outline .timer c motoCycleTimerCallback .idle fun _ x => x = .idle := by
  have hat : (awake depth).At .timer (some c) .nomoto := .inr ⟨nofun, .inl rfl, nofun⟩
  refine (watch_keep_timer (.inl rfl) (All.perform rfl)).seq fun (right : Bool) => ?_
  refine Outline.ite (fun _ => watch_keep_timer (.inl rfl) (All.perform (o := Op.motoSend .back) rfl)) fun _ => ?_
  have hstart : (awake depth).Outline .timer c (timerStart .screenVcc) .idle fun _ x => x = .nomoto := by
    refine watch_move_timer hat fun s tr i x h => ?_
    rw [watch_timer (.inl rfl), refreshed_other (by decide), exec_armed (x := .lowPower) (by decide) (by decide)]
    exact ⟨h.slept, h.low, fun _ => .inr (.inr rfl), nofun, h.left, h.stall⟩
  have hreport : (awake depth).Outline .timer c (jumpSend .nomoto) .nomoto fun _ x => x = .idle :=
    watch_move_timer (.inl rfl) fun s tr i x h => h.report id id
  refine (watch_keep_timer (.inl rfl) (All.perform rfl)).seq fun _ => ?_
  refine Outline.seq (m := .nomoto) ((watch_keep_timer (.inl rfl) (All.perform rfl)).seq fun _ => hstart) fun _ => ?_
  refine Outline.seq (m := .nomoto) (watch_keep_timer hat ?_) fun _ => hreport
  exact all_countUp rfl (fun _ => rfl) fun _ => all_flashSet rfl rfl rfl

/-! ### The motor thread -/

theorem watch_keep_motor {α : Type} {p : Code α} {g : Place} (hp : p.All fun o => unwatched o = true)
    (hg : g = .idle ∨ g = .stall) : (awake depth).Outline .motor .motoEntry p g fun _ x => x = g := by
  have hat : (awake depth).At .motor (some .motoEntry) g := .inr ⟨nofun, .inr rfl, by rcases hg with rfl | rfl <;> nofun⟩
  refine Outline.keep hat (hp.mono fun o ho cfg gs i _ _ hgs hold _ => ?_) fun _ => rfl
  have hinv : Awake (gs .timer) (gs .motor) (watch cfg.state cfg.trace) := hold.1
  show Awake (gs .timer) (gs .motor) (watch (exec .motor o i cfg.state).1 _)
  rw [watch_unwatched ho]
  refine ⟨hinv.slept, hinv.low, hinv.vcc, hinv.sleeping, fun e => ?_, hinv.stall⟩
  rw [hgs] at e
  subst e
  rcases hg with h | h <;> cases h

theorem watch_move_motor {o : Op} {g m : Place} (hm : m ≠ .sleeping)
    (h : ∀ s tr i d, Awake d g (watch s tr) → Awake d m (watch (exec .motor o i s).1 (.did .motor o i :: tr))) :
    (awake depth).Outline .motor .motoEntry (perform o) g fun _ x => x = m :=
  Outline.move (.inr ⟨nofun, .inr rfl, fun e => absurd e hm⟩)
    (fun cfg gs i _ _ hg hold _ => h cfg.state cfg.trace i (gs .timer) (hg ▸ hold.1)) fun _ => rfl

theorem awake_leftLimit :
    (awake depth).Outline .motor .motoEntry leftLimit .idle fun _ x => x = .idle := by
  have hstart : (awake depth).Outline .motor .motoEntry (timerStart .screenVcc) .idle fun _ x => x = .left := by
    refine watch_move_motor nofun fun s tr i d h => ?_
    rw [watch_timer (.inl rfl), exec_armed (x := .lowPower) (by decide) (by decide)]
    exact ⟨h.slept, h.low, fun _ => .inr (.inl rfl), h.sleeping, fun _ => rfl, nofun⟩
  have hload : ∀ v, (v = .tdsValue ∨ v = .settingHardness) →
      (awake depth).Outline .motor .motoEntry (load v) .left fun _ x => x = .left := by
    intro v hv
    refine watch_move_motor nofun fun s tr i d h => ?_
    rw [watch_unwatched rfl]
    refine ⟨h.slept, h.low, h.vcc, h.sleeping, fun _ => ?_, nofun⟩
    rcases hv with rfl | rfl <;> rfl
  have hreport : ∀ b, isOutcome b = true →
      (awake depth).Outline .motor .motoEntry (jumpSend b) .left fun _ x => x = .idle := by
    intro b hb
    refine watch_move_motor nofun fun s tr i d h => ?_
    cases b <;> first | exact ⟨h.slept, nofun, nofun, fun _ => rfl, nofun, nofun⟩ | cases hb
  refine (watch_keep_motor (All.perform rfl) (.inl rfl)).seq fun _ => ?_
  refine (watch_keep_motor (All.perform rfl) (.inl rfl)).seq fun _ => ?_
  refine (watch_keep_motor (All.perform rfl) (.inl rfl)).seq fun _ => ?_
  refine Outline.seq (m := .left) ((watch_keep_motor (All.perform rfl) (.inl rfl)).seq fun _ => hstart) fun _ => ?_
  refine (hload _ (.inl rfl)).seq fun (tds : Nat) => (hload _ (.inr rfl)).seq fun (hardness : Nat) => ?_
  exact Outline.ite (fun _ => hreport .tds rfl) fun _ => hreport .finish rfl

theorem awake_overload :
    (awake depth).Outline .motor .motoEntry motoOverload .stall fun _ x => x = .idle := by
  have hreport : (awake depth).Outline .motor .motoEntry (jumpSend .stalling) .stall fun _ x => x = .stall :=
    watch_move_motor nofun fun s tr i d h => ⟨h.slept, nofun, nofun, fun _ => rfl, nofun, h.stall⟩
  have hstart : (awake depth).Outline .motor .motoEntry (timerStart .screenVcc) .stall fun _ x => x = .idle := by
    refine Outline.move (.inl rfl) (fun cfg gs i _ hhead hg hold hr => ?_) fun _ => rfl
    have hinv : Awake (gs .timer) .stall (watch cfg.state cfg.trace) := hg ▸ hold.1
    have hcycle : inProgress cfg.trace = false := by
      by_contra hn
      rcases hr.2.1 ⟨by simpa using hn, hhead⟩ with e | ⟨-, e⟩
      · cases e
      · exact absurd (e.symm.trans (hinv.stall rfl)) nofun
    show Awake (gs .timer) .idle (watch (exec .motor (.timerStart .screenVcc) i cfg.state).1 _)
    rw [watch_timer (.inl rfl)]
    exact ⟨hinv.slept, fun e => absurd (hcycle.symm.trans e) nofun, fun e => absurd (hcycle.symm.trans e) nofun,
      fun _ => hcycle, nofun, nofun⟩
  refine (watch_keep_motor (All.perform rfl) (.inr rfl)).seq fun _ => ?_
  refine (watch_keep_motor (All.perform rfl) (.inr rfl)).seq fun _ => ?_
  refine (watch_keep_motor (All.perform rfl) (.inr rfl)).seq fun _ => ?_
  refine Outline.seq (m := .stall) (Outline.seq (m := .stall) (watch_keep_motor ?_ (.inr rfl)) fun _ => hreport)
    fun _ => ?_
  · exact all_countUp rfl (fun _ => rfl) fun _ => all_flashSet rfl rfl rfl
  refine (watch_keep_motor (All.perform rfl) (.inr rfl)).seq fun _ => ?_
  refine (watch_keep_motor (All.perform rfl) (.inr rfl)).seq fun _ => ?_
  exact (watch_keep_motor (All.perform rfl) (.inr rfl)).seq fun _ => hstart

theorem awake_release :
    (awake depth).Outline .motor .motoEntry motoFreeEventRelease .idle fun _ x => x = .idle := by
  refine (watch_keep_motor (All.perform rfl) (.inl rfl)).seq fun (left : Bool) => ?_
  refine (watch_keep_motor (All.perform (o := Op.store .leftStatus left.toNat) rfl) (.inl rfl)).seq fun _ => ?_
  refine (watch_keep_motor (All.perform rfl) (.inl rfl)).seq fun (right : Bool) => ?_
  refine (watch_keep_motor (All.perform (o := Op.store .rightStatus right.toNat) rfl) (.inl rfl)).seq fun _ => ?_
  refine (watch_keep_motor (All.perform rfl) (.inl rfl)).seq fun (r : Nat) => ?_
  refine (watch_keep_motor (All.perform rfl) (.inl rfl)).seq fun (f : Nat) => ?_
  refine Outline.seq (m := .idle) (watch_keep_motor (All.when ?_) (.inl rfl)) fun _ => ?_
  · exact All.bind (All.perform rfl) fun _ => All.bind (All.perform rfl) fun _ => All.bind (All.perform rfl) fun _ =>
      All.bind (All.perform rfl) fun _ => All.bind (all_tdsWork rfl rfl rfl) fun _ => All.bind (All.perform rfl) fun _ =>
        All.bind (all_tdsWork rfl rfl rfl) fun _ => All.pure _
  refine (watch_keep_motor (All.perform rfl) (.inl rfl)).seq fun (l : Nat) => ?_
  refine (watch_keep_motor (All.perform rfl) (.inl rfl)).seq fun (f : Nat) => ?_
  exact Outline.when (fun _ => awake_leftLimit) fun _ => rfl

theorem awake_motoEntry :
    (awake depth).Outline .motor .motoEntry motoEntry .idle fun _ x => x = .idle := by
  refine Outline.seq (m := .idle) ?_ fun _ => watch_keep_motor ?_ (.inl rfl)
  · refine (watch_keep_motor (All.perform rfl) (.inl rfl)).seq fun (working : Nat) => ?_
    refine Outline.when (fun _ => ?_) fun _ => rfl
    refine awake_release.seq fun _ => ?_
    refine Outline.bind (R := fun voltage g => if voltage > 200 then g = .stall else g = .idle)
      (Outline.perform fun cfg gs i _ _ hg hold _ => ?_) fun (voltage : Nat) g hg => ?_
    · have hinv : Awake (gs .timer) .idle (watch cfg.state cfg.trace) := hg ▸ hold.1
      by_cases hv : i.value > 200
      · refine ⟨.stall, .inr ⟨nofun, .inr rfl, nofun⟩, ?_, by simp [exec, hv]⟩
        refine ⟨hinv.slept, hinv.low, fun e => (hinv.vcc e).imp_right fun h => h.imp_left nofun, hinv.sleeping, nofun,
          fun _ => ?_⟩
        simp [watch, overloaded, hv]
      · refine ⟨.idle, .inl rfl, ?_, by simp [exec, hv]⟩
        exact ⟨hinv.slept, hinv.low, hinv.vcc, hinv.sleeping, nofun, nofun⟩
    · refine Outline.when (fun hv => ?_) fun hv => ?_
      · rw [if_pos hv] at hg
        exact hg ▸ awake_overload
      · rw [if_neg hv] at hg
        exact hg
  · simp only [motoSwitch, motoCaseFree, motoCaseForward, motoCaseBack]
    repeat' first
      | intro _ | with_reducible apply All.bind | with_reducible apply All.when | with_reducible apply All.ite
      | with_reducible exact All.pure _ | exact All.perform rfl

/-! ### Every call -/

/-- A call that is not an expiry begins. -/
theorem watch_began {t : Thread} {c : Call} {s : Device} {tr : Trace} (ht : t ≠ .motor) (hc : ∀ x, c ≠ .expire x) :
    watch (enter c s) (.began t c :: tr) = watch s tr := by
  have hover : overloaded (.began t c :: tr) = overloaded tr := by simp [overloaded, ht]
  have href : refreshed (.began t c :: tr) = refreshed tr := by
    simp only [refreshed, lastOp_began_of_ne ht]
  simp only [watch, hover, href, Device.armed, enter_timer (hc _)]
  rfl

theorem awake_expire (x : Timer) : (awake depth).Begins .timer (.expire x) := by
  intro cfg gs hnone hready hold hr
  have harmed : cfg.state.armed x = true := by simpa [board, fieldCalls, Call.enabled, Call.thread] using hready
  have hg : gs .timer = .idle := by
    have hat := hold.2 .timer
    rw [show cfg.call .timer = none by simp [Config.call, hnone]] at hat
    simpa [awake] using hat
  have hinv : Awake .idle (gs .motor) (watch cfg.state cfg.trace) := hg ▸ hold.1
  have hstop : ∀ y, cfg.state.armed y = false → (cfg.state.stopTimer x).armed y = false := fun y hy => by
    by_cases hxy : y = x
    · subst hxy
      simp [Device.armed, Device.stopTimer, Device.setTimer]
    · simpa [Device.armed, Device.stopTimer, Device.setTimer, hxy] using hy
  have hbegan : Awake .idle (gs .motor) (watch (cfg.state.stopTimer x) (.began .timer (.expire x) :: cfg.trace)) :=
    hinv.stop (hstop _) (hstop _)
  -- an armed timer that leads to stop mode means that no backwash is in progress
  have hcalm : x = .screenVcc ∨ x = .lowPower → inProgress cfg.trace = false := by
    rintro hx
    by_contra hn
    have hc : inProgress cfg.trace = true := by simpa using hn
    rcases hx with rfl | rfl
    · rcases hinv.vcc hc with e | e | e
      · exact absurd (e.symm.trans harmed) Bool.false_ne_true
      · exact hr ⟨rfl, hc, hinv.left e⟩
      · cases e
    · exact absurd ((hinv.low hc).symm.trans harmed) Bool.false_ne_true
  have hsleep : x = .screenVcc ∨ x = .lowPower →
      Awake .sleeping (gs .motor) (watch (cfg.state.stopTimer x) (.began .timer (.expire x) :: cfg.trace)) :=
    fun hx => ⟨hbegan.slept, hbegan.low, fun e => absurd ((hcalm hx).symm.trans e) Bool.false_ne_true, fun _ => hcalm hx,
      hbegan.left, hbegan.stall⟩
  cases x with
  | motoCycle =>
    exact ⟨.idle, .inl rfl, hbegan, awake_motoCycleTimerCallback.mono fun _ _ e => .inl e⟩
  | screenBacklight =>
    refine ⟨.idle, .inl rfl, hbegan, (watch_keep_timer (.inl rfl) ?_).mono fun _ _ e => .inl e⟩
    exact All.bind (All.perform rfl) fun _ => All.bind (All.perform rfl) fun _ =>
      All.perform (o := Op.pinWrite .lcdBl false) rfl
  | screenVcc =>
    refine ⟨.sleeping, at_sleeping rfl, hsleep (.inl rfl), ?_⟩
    exact Outline.seq (m := .sleeping) (watch_keep_timer (at_sleeping rfl) (All.perform rfl)) fun _ =>
      (awake_enterLowPower rfl).mono fun _ _ e => .inl e
  | lowPower =>
    refine ⟨.sleeping, at_sleeping rfl, hsleep (.inr rfl), ?_⟩
    exact (awake_enterLowPower rfl).mono fun _ _ e => .inl e

theorem awake_begins (c : Call) (hc : fieldCalls c = true) : (awake depth).Begins c.thread c := by
  have hidle : ∀ x, (awake depth).At c.thread none x → x = .idle := fun x hx => by simpa [awake] using hx
  by_cases hx : ∃ x, c = .expire x
  · obtain ⟨x, rfl⟩ := hx
    exact awake_expire x
  have hx' : ∀ x, c ≠ .expire x := fun x e => hx ⟨x, e⟩
  by_cases hm : c = .motoEntry
  · subst hm
    refine begins_outline hidle (.inl rfl) (fun cfg gs hold _ hg _ => ?_) (awake_motoEntry.mono fun _ _ e => .inl e)
    have hinv : Awake (gs .timer) (gs .motor) (watch cfg.state cfg.trace) := hold.1
    have hg' : gs .motor = .idle := hg
    rw [hg'] at hinv
    show Awake (gs .timer) (gs .motor) _
    rw [hg']
    exact ⟨hinv.slept, hinv.low, hinv.vcc, hinv.sleeping, nofun, nofun⟩
  have hmotor : c.thread ≠ .motor := by cases c <;> simp [Call.thread] at hm ⊢
  have henter : ∀ cfg gs, (awake depth).Holds gs cfg → (awake depth).Rule cfg (.start c.thread c) →
      gs c.thread = .idle → c.enabled cfg.state = true →
      (awake depth).Inv gs (enter c cfg.state) (.began c.thread c :: cfg.trace) := by
    intro cfg gs hold _ _ _
    show Awake (gs .timer) (gs .motor) (watch (enter c cfg.state) _)
    rw [watch_began hmotor hx']
    exact hold.1
  by_cases hj : c = .expireSemJump
  · subst hj
    exact begins_outline hidle (.inl rfl) henter
      ((watch_keep_timer (.inl rfl) (All.perform (o := Op.semRelease .k2) rfl)).mono fun _ _ e => .inl e)
  · have ht : c.thread ≠ .timer ∧ c.thread ≠ .motor ∧ c.thread ≠ .shell := by
      cases c <;> simp_all [Call.thread, fieldCalls]
    exact begins_quiet hidle (fun _ => .inl rfl) henter fun o ho => other_keeps ht ho

/-- `EnterLowPower` is not executed while a backwash is in progress, in a run that
keeps to the rule. -/
theorem never_sleeps_in_cycle (depth : Nat) (flash : Nat → Nat) (as : List Act)
    (h : (board fieldCalls depth).Admits AwakeRule (start flash) as) :
    sleptInCycle ((board fieldCalls depth).run (start flash) as).trace = false := by
  have hstart : (awake depth).Good (fun _ => .idle) (start flash) :=
    Good.boot ⟨rfl, nofun, nofun, nofun, nofun, nofun⟩ fun _ => .inl rfl
  obtain ⟨gs, hgood⟩ := run_good (begins_board awake_begins) hstart h
  exact hgood.1.slept

/-- A backwash started by hand that nobody disturbs. -/
def undisturbed : List Act := byHand ++ openPass 8 ++ rightPass 26 ++ expiry ++ openPass 8 ++ leftPass 0

theorem never_sleeps_undisturbed :
    (board fieldCalls 2).Admits AwakeRule (start fun _ => 0) undisturbed ∧
    sleptInCycle ((board fieldCalls 2).run (start fun _ => 0) undisturbed).trace = false :=
  ⟨by decide +kernel, never_sleeps_in_cycle 2 (fun _ => 0) undisturbed (by decide +kernel)⟩

/-- A key ten seconds into a backwash of a hundred: a minute later the screen timer
expires, with the valve still in its dwell. -/
def lateKey : List Act :=
  byHand ++ openPass 8 ++ rightPass 26 ++ .start .clock (.tick 10000) :: press .k0 ++
    .start .clock (.tick 60000) :: .start .timer (.expire .screenVcc) :: turns .timer {} 2

theorem sleeps_lateKey :
    sleptInCycle ((board fieldCalls 2).run (start fun id => if id = 14 then 100 else 0) lateKey).trace = true := by
  decide +kernel

end Backwash.Sleep
