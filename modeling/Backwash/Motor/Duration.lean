import Backwash.Motor.Bridge
import Backwash.Settings.Numbers

/-! How long a backwash takes.

An accepted `Moto_Cycle` reads `Setting_Backwashtime`, sets `Moto_Cycle_Timer` to a thousand
ticks for each second and starts it. The display and the shell call it, and the display
thread changes the setting; between the three steps of one caller the other may take any of
its own. -/
namespace Backwash.Motor
open Concurrent Prog Protocol Firmware Settings

/-! ### What a caller has read and set -/

/-- The backwash time that the operation stores. -/
def storesTime : Op → Option Nat
  | .store v n => if v = .settingBackwashtime then some (n % 2 ^ 16) else none
  | _ => none

/-- The tick count that the operation sets the cycle timer to. -/
def setsTimer : Op → Option Nat
  | .timerControl x n => if x = .motoCycle then some n else none
  | _ => none

def entersCycle : Op → Bool
  | .mark m => match m with
    | .motoCycle _ => true
    | _ => false
  | _ => false

/-- The backwash time, which was `b` at the start. -/
def timeIn (b : Nat) : Trace → Nat
  | [] => b
  | .began _ _ :: tr => timeIn b tr
  | .did _ o _ :: tr => (storesTime o).getD (timeIn b tr)

/-- The backwash time as the thread has read it last. -/
def lastRead (b : Nat) (t : Thread) : Trace → Nat
  | [] => b
  | .began _ _ :: tr => lastRead b t tr
  | .did u o _ :: tr => if u = t ∧ o = .load .settingBackwashtime then timeIn b tr else lastRead b t tr

/-- What the thread has set the cycle timer to since it entered `Moto_Cycle`. -/
def programmed (t : Thread) : Trace → Option Nat
  | [] => none
  | .began _ _ :: tr => programmed t tr
  | .did u o _ :: tr =>
    if u ≠ t then programmed t tr else if entersCycle o = true then none else (setsTimer o).or (programmed t tr)

/-- A tick count of 1000 for each of 1 to 120 seconds. -/
def SaneTicks (n : Nat) : Prop := ∃ k, n = 1000 * k ∧ 1 ≤ k ∧ k ≤ 120

/-- Whoever sets the cycle timer sets it to a sane duration, by the setting it has read, and
whoever starts it has set it. -/
def ProgramsSanely (b : Nat) (cfg : Conf) : Prop :=
  match cfg.trace with
  | .did t o _ :: tr =>
    (∀ n ∈ setsTimer o, n = 1000 * lastRead b t tr ∧ SaneTicks n ∧ (cfg.state.timer .motoCycle).initTick = n) ∧
    (o = .timerStart .motoCycle → ∃ n ∈ programmed t tr, n = 1000 * lastRead b t tr ∧ SaneTicks n)
  | _ => True

/-! ### The stages of a request -/

inductive Stage where
  | idle | read (n : Nat) | set (n : Nat)

def Stage.Means (b : Nat) (t : Thread) (tr : Trace) : Stage → Prop
  | .idle => True
  | .read n => lastRead b t tr = n ∧ 1 ≤ n ∧ n ≤ 120
  | .set n => (lastRead b t tr = n ∧ 1 ≤ n ∧ n ≤ 120) ∧ programmed t tr = some (n * 1000)

structure Timed (b : Nat) (gs : Thread → Stage) (s : Device) (tr : Trace) : Prop where
  time : s.vars .settingBackwashtime = timeIn b tr
  stage : ∀ t, (gs t).Means b t tr
  timer : SaneTicks (s.timer .motoCycle).initTick
  sane : ∀ task, ProgramsSanely b ⟨s, task, tr⟩

def timed (b : Nat) (allowed : Call → Bool) (depth : Nat) : Protocol (board allowed depth) Stage where
  Rule := fun cfg _ => 1 ≤ cfg.state.vars .settingBackwashtime ∧ cfg.state.vars .settingBackwashtime ≤ 120
  Inv := Timed b
  At := fun _ c g => c = none → g = .idle

variable {b : Nat} {allowed : Call → Bool} {depth : Nat} {gs : Thread → Stage} {s : Device} {tr : Trace} {t : Thread}
  {o : Op} {i : Input} {c : Call}

theorem timeIn_did (h : s.vars .settingBackwashtime = timeIn b tr) :
    (exec t o i s).1.vars .settingBackwashtime = timeIn b (.did t o i :: tr) := by
  by_cases ho : ∃ n, o = .store .settingBackwashtime n
  · obtain ⟨n, rfl⟩ := ho
    simp [exec, Device.store, timeIn, storesTime, Var.width]
  · have hnone : storesTime o = none := by
      cases o with
      | store v n => exact if_neg fun e => ho ⟨n, by rw [e]⟩
      | _ => rfl
    rw [exec_vars (fun n e => ho ⟨n, e⟩) (fun _ => by simp) (by simp), h, timeIn, hnone]
    rfl

theorem Stage.Means.other {u : Thread} {g : Stage} (h : g.Means b u tr) (hu : t ≠ u) : g.Means b u (.did t o i :: tr) := by
  have hread : lastRead b u (.did t o i :: tr) = lastRead b u tr := by simp [lastRead, hu]
  have hset : programmed u (.did t o i :: tr) = programmed u tr := if_pos hu
  cases g with
  | idle => trivial
  | read n => exact ⟨hread.trans h.1, h.2⟩
  | set n => exact ⟨⟨hread.trans h.1.1, h.1.2⟩, hset.trans h.2⟩

/-- A step of a thread that goes on to another stage. -/
theorem Timed.did {g : Stage} (h : Timed b gs s tr) (hg : g.Means b t (.did t o i :: tr))
    (htimer : SaneTicks ((exec t o i s).1.timer .motoCycle).initTick)
    (hsane : ∀ task, ProgramsSanely b ⟨(exec t o i s).1, task, .did t o i :: tr⟩) :
    Timed b (Function.update gs t g) (exec t o i s).1 (.did t o i :: tr) where
  time := timeIn_did h.time
  stage := fun u => by
    by_cases hu : u = t
    · subst hu
      rwa [Function.update_self]
    · rw [Function.update_of_ne hu]
      exact (h.stage u).other (Ne.symm hu)
  timer := htimer
  sane := hsane

theorem Timed.began (h : Timed b gs s tr) (c : Call) : Timed b gs (enter c s) (.began t c :: tr) where
  time := (enter_vars (fun _ => by simp) (by simp) c s).trans h.time
  stage := h.stage
  timer := by
    have htick : ((enter c s).timer .motoCycle).initTick = (s.timer .motoCycle).initTick := by
      refine enter_keep (f := fun s => (s.timer .motoCycle).initTick) (fun x s _ => ?_) (fun _ _ => rfl) (fun _ _ => rfl)
        (fun o s ho => ?_) s
      · cases x <;> simp [Device.stopTimer, Device.setTimer]
      · rcases irq_cases ho with ⟨_, rfl⟩ | ⟨_, rfl⟩ | ⟨_, _, rfl⟩ | ⟨_, rfl⟩ | rfl <;> rfl
    rw [htick]
    exact h.timer
  sane := fun _ => trivial

/-! ### The firmware sets the timer only in `Moto_Cycle` -/

/-- The operation neither sets nor starts the cycle timer. -/
def quiet : Op → Bool
  | .timerControl _ _ => false
  | .timerStart x => x != .motoCycle
  | _ => true

theorem Timed.quiet (h : Timed b gs s tr) (hg : gs t = .idle) (ho : quiet o = true) :
    Timed b gs (exec t o i s).1 (.did t o i :: tr) := by
  have hupdate : gs = Function.update gs t .idle := by rw [← hg, Function.update_eq_self]
  rw [hupdate]
  have hsets : setsTimer o = none := by cases o <;> first | rfl | cases ho
  have hstarts : o ≠ .timerStart .motoCycle := fun e => by subst e; cases ho
  have htick : ((exec t o i s).1.timer .motoCycle).initTick = (s.timer .motoCycle).initTick := by
    cases o with
    | timerStart x => cases x <;> simp [exec, Device.setTimer]
    | timerStop x => cases x <;> simp [exec, Device.stopTimer, Device.setTimer]
    | timerControl x n => cases ho
    | stop2 => simp only [exec]; split <;> rfl
    | _ => rfl
  refine h.did trivial (htick ▸ h.timer) fun task => ⟨fun n hn => ?_, fun e => absurd e hstarts⟩
  rw [hsets] at hn
  cases hn

theorem outline_quiet (ho : quiet o = true) :
    (timed b allowed depth).Outline t c (perform o) .idle fun _ g => g = .idle := by
  refine Outline.keep (fun _ => rfl) (All.perform fun cfg gs i _ _ hg hold _ => ?_) fun _ => rfl
  exact Timed.quiet hold.1 hg ho

/-- The setting is read, the timer is set by it and started. -/
theorem outline_motoCycleAccept :
    (timed b allowed depth).Outline t c motoCycleAccept .idle fun _ g => g = .idle := by
  have hstop : (timed b allowed depth).Outline t c screenTimerStop .idle fun _ g => g = .idle :=
    (outline_quiet rfl).seq fun _ => outline_quiet rfl
  have hgreen : (timed b allowed depth).Outline t c greenLight .idle fun _ g => g = .idle :=
    (outline_quiet rfl).seq fun _ => outline_quiet rfl
  refine hstop.seq fun _ => (outline_quiet rfl).seq fun _ => ?_
  refine Outline.bind (R := fun (n : Nat) g => g = .read n) (Outline.perform fun cfg gs i _ _ _ hold hr => ?_) fun n g hg => ?_
  · have hinv : Timed b gs cfg.state cfg.trace := hold.1
    refine ⟨.read (cfg.state.vars .settingBackwashtime), (fun e => by cases e), ?_, rfl⟩
    refine hinv.did ⟨?_, hr⟩ hinv.timer fun task => ⟨fun n hn => (by cases hn), fun e => (by cases e)⟩
    rw [lastRead, if_pos ⟨rfl, rfl⟩, hinv.time]
  subst hg
  refine Outline.bind (R := fun _ g => g = .set n) (Outline.move (fun e => nomatch e) (fun cfg gs i _ _ hg hold _ => ?_)
    fun _ => rfl) fun _ g hg => ?_
  · have hinv : Timed b gs cfg.state cfg.trace := hold.1
    have hread : lastRead b t cfg.trace = n ∧ 1 ≤ n ∧ n ≤ 120 := by
      have := hinv.stage t
      rwa [hg] at this
    have hsane : SaneTicks (n * 1000) := ⟨n, Nat.mul_comm n 1000, hread.2⟩
    have htick : ((exec t (.timerControl .motoCycle (n * 1000)) i cfg.state).1.timer .motoCycle).initTick = n * 1000 := by
      simp [exec, Device.setTimer]
    refine hinv.did ⟨?_, ?_⟩ (htick ▸ hsane) fun task => ⟨fun m hm => ?_, fun e => (by cases e)⟩
    · simpa [lastRead] using hread
    · simp [programmed, entersCycle, setsTimer]
    · obtain rfl : n * 1000 = m := Option.some.inj hm
      exact ⟨by rw [hread.1, Nat.mul_comm], hsane, htick⟩
  subst hg
  refine Outline.seq (m := .idle) (Outline.move (fun _ => rfl) (fun cfg gs i _ _ hg hold _ => ?_) fun _ => rfl) fun _ => hgreen
  have hinv : Timed b gs cfg.state cfg.trace := hold.1
  have hset : (lastRead b t cfg.trace = n ∧ 1 ≤ n ∧ n ≤ 120) ∧ programmed t cfg.trace = some (n * 1000) := by
    have := hinv.stage t
    rwa [hg] at this
  have htick : ((exec t (.timerStart .motoCycle) i cfg.state).1.timer .motoCycle).initTick =
      (cfg.state.timer .motoCycle).initTick := by simp [exec, Device.setTimer]
  refine hinv.did trivial (htick ▸ hinv.timer) fun task => ⟨fun m hm => (by cases hm), fun _ => ?_⟩
  exact ⟨n * 1000, hset.2, by rw [hset.1.1, Nat.mul_comm], n, Nat.mul_comm n 1000, hset.1.2⟩

theorem quiet_of_winMay {w : Win} (hw : w ≠ .w2) (ho : winMay w o = true) : quiet o = true := by
  obtain ⟨hmay, hown⟩ := Bool.and_eq_true_iff.mp ho
  cases o with
  | timerControl x n => cases w <;> first | exact absurd rfl hw | cases hown
  | timerStart x => cases x <;> first | rfl | (cases w <;> first | exact absurd rfl hw | cases hown)
  | _ => rfl

theorem quiet_of_taskMay (ho : taskMay o = true) : quiet o = true := by
  cases o with
  | timerStart x => cases x <;> first | rfl | cases ho
  | timerControl x n => cases ho
  | _ => rfl

theorem quiet_of_openMay (ho : openMay o = true) : quiet o = true := by cases o <;> first | rfl | cases ho

/-- The other threads, the shell apart, never set or start the timer. -/
theorem quiet_of_may (hl : t ≠ .lcd) (hs : t ≠ .shell) (ho : may t o = true) : quiet o = true := by
  cases o with
  | timerStart x =>
    cases x <;> first | rfl | (cases t <;> first | exact absurd rfl hl | exact absurd rfl hs | cases ho)
  | timerControl x n => cases t <;> first | exact absurd rfl hl | exact absurd rfl hs | cases ho
  | _ => rfl

section
variable {P : ∀ {α : Type}, Code α → Prop} (hP : Compositional P) (hop : ∀ o, quiet o = true → P (perform o))
  (haccept : P motoCycleAccept)
include hP hop haccept

theorem timed_motoCycle (caller : Caller) : P (motoCycle caller) := by
  simp only [motoCycle, rtcClear, motoCycleSupplied, getDcLevel, jumpe, jumpToBatteryEmpty]
  repeat' first
    | with_reducible exact haccept | intro _ | with_reducible apply hP.bind | with_reducible apply hP.when
    | with_reducible exact hP.pure _ | split | exact hop _ rfl

theorem timed_userMain2WinFun : P userMain2WinFun := by
  have hdraw := built_drawButtons hP fun i n => ⟨hop (.setButton i n) rfl, hop (.guiButton i) rfl⟩
  have hmoto := timed_motoCycle hP hop haccept .userMain2WinFun
  simp only [userMain2WinFun, window, takeKeys, toggleTwo, countUp, flashSet]
  repeat' first
    | with_reducible exact hdraw _ | with_reducible exact hmoto | intro _ | with_reducible apply hP.bind
    | with_reducible apply hP.when | with_reducible exact hP.pure _ | split | exact hop _ rfl

theorem timed_guiWinDisplay (depth : Nat) : P (guiWinDisplay depth) := by
  induction depth with
  | zero => exact hP.pure ()
  | succ depth ih =>
    refine hP.bind (hop _ rfl) fun (top : Option Win) => ?_
    cases top with
    | none => exact hP.pure ()
    | some w =>
      refine hP.bind (hop _ rfl) fun _ => ?_
      by_cases hw : w = .w2
      · subst hw
        exact timed_userMain2WinFun hP hop haccept
      · exact built_winFun hP ih fun o ho => hop o (quiet_of_winMay hw ho)

theorem timed_lcdTaskEntry (depth : Nat) : P (lcdTaskEntry depth) :=
  built_lcdTaskEntry hP (timed_guiWinDisplay hP hop haccept depth)
    (built_openLcdDisplay hP fun o ho => hop o (quiet_of_openMay ho)) (timed_motoCycle hP hop haccept _)
    fun o ho => hop o (quiet_of_taskMay ho)

/-- Every call of the display and of the shell. -/
theorem timed_body (depth : Nat) (hc : c.thread = .lcd ∨ c.thread = .shell) : P (body depth c) := by
  cases c with
  | lcdTask => exact timed_lcdTaskEntry hP hop haccept depth
  | motoCycle caller => exact timed_motoCycle hP hop haccept caller
  | scheduleSave k =>
    refine built_scheduleSave hP k fun o ho => hop o (quiet_of_winMay ?_ ho)
    cases k <;> decide
  | shell c =>
    cases c with
    | motoCycle => exact timed_motoCycle hP hop haccept .shell
    | _ => exact hop _ rfl
  | _ => simp [Call.thread] at hc

end

theorem timed_begins (t : Thread) (c : Call) : (timed b allowed depth).Begins t c := by
  refine begins_board (fun c _ => ?_) t c
  refine begins_outline (g := .idle) (fun x hx => hx rfl) (fun _ => rfl) (fun cfg gs hold _ _ _ => ?_) ?_
  · exact Timed.began hold.1 c
  by_cases hc : c.thread = .lcd ∨ c.thread = .shell
  · refine Outline.mono (timed_body (P := fun p => (timed b allowed depth).Outline c.thread c p .idle fun _ g => g = .idle)
      Outline.compositional (fun o ho => outline_quiet ho) outline_motoCycleAccept depth hc) fun _ g hg _ => hg
  · obtain ⟨hl, hs⟩ := not_or.mp hc
    refine Outline.keep (fun _ => rfl) ((body_may depth c).mono fun o ho cfg gs i _ _ hg hold _ => ?_) fun _ _ => rfl
    exact Timed.quiet hold.1 hg (quiet_of_may hl hs ho)

/-! ### The setting -/

/-- What `GotValue` lets pass. -/
def timeRange : Range where
  value := fun n => 1 ≤ n ∧ n ≤ 120
  entry := fun _ => True
  saved := fun _ _ => trivial
  cleared := trivial

/-- What the editor counts between. -/
def editRange : Range where
  value := fun n => 30 ≤ n ∧ n ≤ 100
  entry := fun n => n = 0 ∨ 30 ≤ n ∧ n ≤ 100
  saved := fun _ h => .inr h
  cleared := .inl rfl

/-- The keys stay in any range around that of the editor. -/
theorem backwash_kept {I : Range} {lo hi : Nat} (hI : ∀ n, I.value n ↔ lo ≤ n ∧ n ≤ hi) (hlo : lo ≤ 30) (hhi : 100 ≤ hi)
    (hfits : hi < 2 ^ 16) : Kept .backwash I fun _ _ => True := by
  refine ⟨fun n h => ?_, fun n h => ?_, fun n h _ => ?_⟩
  all_goals
    have hn : lo ≤ n ∧ n ≤ hi := (hI n).mp h
    rw [hI]
    simp only [Number.first, Number.down, Number.up]
    first | omega | (split <;> omega)

theorem time_kept : Kept .backwash timeRange fun _ _ => True :=
  backwash_kept (fun _ => Iff.rfl) (by decide) (by decide) (by decide)

theorem edit_kept : Kept .backwash editRange fun _ _ => True :=
  backwash_kept (fun _ => Iff.rfl) (by decide) (by decide) (by decide)

theorem copyRule_any (cfg : Conf) (a : Act) : CopyRule .backwash (fun _ _ => True) cfg a := by
  cases a <;> simp [CopyRule]

theorem boot_time (flash : Nat → Nat) : timeRange.value ((boot flash).vars .settingBackwashtime) := by
  show 1 ≤ (boot flash).vars .settingBackwashtime ∧ (boot flash).vars .settingBackwashtime ≤ 120
  rw [(boot_numbers flash).2.2.1]
  split <;> omega

theorem boot_edit {flash : Nat → Nat} (h : editRange.entry (flash 14)) :
    editRange.value ((boot flash).vars .settingBackwashtime) ∧ editRange.entry ((boot flash).flash 14) := by
  have hentry : flash 14 = 0 ∨ 30 ≤ flash 14 ∧ flash 14 ≤ 100 := h
  show (30 ≤ (boot flash).vars .settingBackwashtime ∧ (boot flash).vars .settingBackwashtime ≤ 100) ∧
    ((boot flash).flash 14 = 0 ∨ 30 ≤ (boot flash).flash 14 ∧ (boot flash).flash 14 ≤ 100)
  rw [(boot_numbers flash).2.2.1, (boot_numbers flash).2.2.2]
  constructor <;> split <;> omega

/-! ### Every life -/

theorem programs_sanely (allowed : Call → Bool) (depth : Nat) (flash : Nat → Nat) (as : List Act) :
    ProgramsSanely ((boot flash).vars .settingBackwashtime) ((board allowed depth).run (start flash) as) ∧
      SaneTicks (((board allowed depth).run (start flash) as).state.timer .motoCycle).initTick := by
  have hadmits : (board allowed depth).Admits
      (timed ((boot flash).vars .settingBackwashtime) allowed depth).Rule (start flash) as :=
    System.admits_of_run fun bs _ _ =>
      (life_safe (N := .backwash) (I := timeRange) time_kept (boot_time flash) trivial
        (System.admits_of_forall copyRule_any _ bs)).1
  have hboot : Timed ((boot flash).vars .settingBackwashtime) (fun _ => .idle) (boot flash) [] :=
    ⟨rfl, fun _ => trivial, by rw [boot_timer]; exact ⟨15, rfl, by decide, by decide⟩, fun _ => trivial⟩
  obtain ⟨gs, hgood⟩ := Protocol.run_good timed_begins (Good.boot hboot fun _ _ => rfl) hadmits
  exact ⟨hgood.1.sane _, hgood.1.timer⟩

/-- In every life of the controller the cycle timer is set by the setting and to a sane
duration, and a setting that the editor could have made stays one. -/
theorem duration_sane (allowed : Call → Bool) (depth : Nat) (flash : Nat → Nat) (lives : List (List Act)) (as : List Act) :
    ProgramsSanely ((boot (afterLives (board allowed depth) flash lives)).vars .settingBackwashtime)
        ((board allowed depth).run (start (afterLives (board allowed depth) flash lives)) as) ∧
      SaneTicks (((board allowed depth).run (start (afterLives (board allowed depth) flash lives)) as).state.timer
        .motoCycle).initTick ∧
      (flash 14 = 0 ∨ 30 ≤ flash 14 ∧ flash 14 ≤ 100 →
        30 ≤ ((board allowed depth).run (start (afterLives (board allowed depth) flash lives)) as).state.vars
            .settingBackwashtime ∧
          ((board allowed depth).run (start (afterLives (board allowed depth) flash lives)) as).state.vars
            .settingBackwashtime ≤ 100) := by
  obtain ⟨hprograms, htimer⟩ := programs_sanely allowed depth (afterLives (board allowed depth) flash lives) as
  refine ⟨hprograms, htimer, fun h => ?_⟩
  exact lives_safe (N := .backwash) (I := editRange) edit_kept (fun f hf => boot_edit hf) h
    (livesAdmit_of_forall copyRule_any flash lives) (System.admits_of_forall copyRule_any _ as)

/-- A minute is stored, and a backwash is requested in the second life. -/
theorem duration_sane_minute :
    (((board motorCalls 0).run (start (afterLives (board motorCalls 0) (fun _ => 60) [request])) request).state.timer
      .motoCycle).initTick = 60000 ∧
    ((board motorCalls 0).run (start (afterLives (board motorCalls 0) (fun _ => 60) [request])) request).state.vars
      .settingBackwashtime ≤ 100 :=
  ⟨by decide +kernel, ((duration_sane motorCalls 0 (fun _ => 60) [request] request).2.2 (by decide)).2⟩

end Backwash.Motor
