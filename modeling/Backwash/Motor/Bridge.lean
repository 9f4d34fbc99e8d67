import Backwash.Firmware.Obligations

/-! The bridge: `MOTO_IN1` drives the valve back, `MOTO_IN2` drives it forward.

Only the motor thread raises the two inputs, and it does so in two cases of its
switch. `Forward` lowers `MOTO_IN1` before it raises `MOTO_IN2`; `Back` raises
`MOTO_IN1` first. -/
namespace Backwash.Motor
open Concurrent Prog Protocol Firmware

/-- The other threads lower the bridge inputs, if they touch them at all. -/
theorem bridge_lowered {t : Thread} {o : Op} {p : Pin} {s : Device} {i : Input} (hp : p = .motoIn1 ∨ p = .motoIn2)
    (ht : t ≠ .motor) (hmay : may t o = true) (h : s.pins p = false) : (exec t o i s).1.pins p = false := by
  by_cases ho : ∃ b, o = .pinWrite p b
  · obtain ⟨b, rfl⟩ := ho
    have hb : b = false := by
      rcases hp with rfl | rfl <;> cases t <;>
        simp_all [may, lcdMay, timerMay, buttonMay, rtcCheckMay, serialMay, batteryMay, shellMay, irqMay]
    simp [exec, Device.setPin, hb]
  · rw [exec_pins fun b e => ho ⟨b, e⟩, h]

/-- Only the motor thread writes `MotoWorkFlag`. -/
theorem motoWorkFlag_other {t : Thread} {o : Op} {s : Device} {i : Input} (ht : t ≠ .motor)
    (hmay : may t o = true) : (exec t o i s).1.vars .motoWorkFlag = s.vars .motoWorkFlag := by
  refine exec_vars (v := .motoWorkFlag) (fun n e => ?_) (fun _ => nofun) nofun i
  subst e
  cases t <;>
    simp_all [may, lcdMay, timerMay, buttonMay, rtcCheckMay, serialMay, batteryMay, shellMay, irqMay]

/-! ### Both inputs high -/

/-- Where the motor thread is on its way to driving the valve. -/
inductive Switching where
  | idle | in1Low | backCase | in2Low
  deriving DecidableEq

structure Apart (gs : Thread → Switching) (s : Device) (tr : Trace) : Prop where
  apart : s.pins .motoIn1 = false ∨ s.pins .motoIn2 = false
  in1Low : gs .motor = .in1Low → s.pins .motoIn1 = false
  in2Low : gs .motor = .in2Low → s.pins .motoIn2 = false
  backCase : gs .motor = .backCase → lastOp .motor tr = some (.mark (.motoCase .back))

/-- When the `Back` case reads the left switch open, the forward input is low. -/
def BackAtRest (cfg : Conf) : Act → Prop
  | .step t i =>
    t = .motor ∧ cfg.head t = some (.pinRead .motoLeft) ∧ lastOp t cfg.trace = some (.mark (.motoCase .back)) ∧
      i.level = true → cfg.state.pins .motoIn2 = false
  | .start _ _ => True

instance (cfg : Conf) : ∀ a, Decidable (BackAtRest cfg a)
  | .step _ _ => inferInstanceAs (Decidable (_ → _))
  | .start _ _ => isTrue trivial

variable {allowed : Call → Bool} {depth : Nat}

def apart (allowed : Call → Bool) (depth : Nat) : Protocol (board allowed depth) Switching where
  Rule := BackAtRest
  Inv := Apart
  At := fun t c g => g = .idle ∨ (t = .motor ∧ c ≠ none)

/-- Another thread's step. -/
theorem Apart.other {gs : Thread → Switching} {s : Device} {tr : Trace} (h : Apart gs s tr) {t : Thread} {o : Op}
    {i : Input} (ht : t ≠ .motor) (hmay : may t o = true) : Apart gs (exec t o i s).1 (.did t o i :: tr) where
  apart := h.apart.imp (bridge_lowered (.inl rfl) ht hmay) (bridge_lowered (.inr rfl) ht hmay)
  in1Low := fun hg => bridge_lowered (.inl rfl) ht hmay (h.in1Low hg)
  in2Low := fun hg => bridge_lowered (.inr rfl) ht hmay (h.in2Low hg)
  backCase := fun hg => by rw [lastOp_did_of_ne ht]; exact h.backCase hg

/-- A call begins. -/
theorem Apart.began {gs : Thread → Switching} {s : Device} {tr : Trace} (h : Apart gs s tr) {t : Thread} (c : Call)
    (ht : t = .motor → gs .motor = .idle) : Apart gs (enter c s) (.began t c :: tr) where
  apart := by rw [enter_pins]; exact h.apart
  in1Low := by rw [enter_pins]; exact h.in1Low
  in2Low := by rw [enter_pins]; exact h.in2Low
  backCase := fun hg => by
    have hne : t ≠ .motor := fun e => by rw [ht e] at hg; cases hg
    rw [lastOp_began_of_ne hne]
    exact h.backCase hg

/-- The motor's own step, when it leaves no promise behind. -/
theorem Apart.settled {gs : Thread → Switching} {s : Device} {tr : Trace}
    (h : s.pins .motoIn1 = false ∨ s.pins .motoIn2 = false) : Apart (Function.update gs .motor .idle) s tr where
  apart := h
  in1Low := fun hg => by simp at hg
  in2Low := fun hg => by simp at hg
  backCase := fun hg => by simp at hg

/-- The operation raises a pin. -/
def raises : Op → Bool
  | .pinWrite _ b => b
  | _ => false

theorem pins_lowered {t : Thread} {o : Op} {p : Pin} {s : Device} {i : Input} (ho : raises o = false)
    (h : s.pins p = false) : (exec t o i s).1.pins p = false := by
  by_cases hw : ∃ b, o = .pinWrite p b
  · obtain ⟨b, rfl⟩ := hw
    simpa [exec, Device.setPin, raises] using ho
  · rw [exec_pins fun b e => hw ⟨b, e⟩, h]

/-- A stretch of the motor's pass that raises nothing. -/
theorem apart_keep {α : Type} {p : Code α} (hp : p.All fun o => raises o = false) :
    (apart allowed depth).Outline .motor .motoEntry p .idle fun _ g => g = .idle := by
  refine Outline.keep (.inl rfl) (hp.mono fun o ho cfg gs i _ _ hg hold _ => ?_) fun _ => rfl
  rw [show gs = Function.update gs .motor .idle by rw [← hg, Function.update_eq_self]]
  exact Apart.settled (hold.1.apart.imp (pins_lowered ho) (pins_lowered ho))

theorem poll_raises_nothing : motoPoll.All fun o => raises o = false := by
  simp only [motoPoll, motoFreeEventRelease, rightLimit, leftLimit, tdsWork, screenTimerRefresh, jumpa, jumpc,
    getMotoValue, motoOverload, jumpb, countUp, flashSet]
  repeat' first
    | intro _ | with_reducible apply All.bind | with_reducible apply All.when | with_reducible apply All.ite
    | with_reducible exact All.pure _ | exact All.perform rfl

theorem free_raises_nothing : motoCaseFree.All fun o => raises o = false := by
  simp only [motoCaseFree]
  repeat' first | intro _ | with_reducible apply All.bind | exact All.perform rfl

theorem apart_forward :
    (apart allowed depth).Outline .motor .motoEntry motoCaseForward .idle fun _ g => g = .idle := by
  refine Outline.seq (apart_keep (All.perform rfl)) fun _ => ?_
  refine Outline.seq (apart_keep (All.perform rfl)) fun right => ?_
  refine Outline.ite (fun _ => ?_) fun _ => apart_keep (All.perform (o := Op.store .motoWorkFlag 1) rfl)
  refine Outline.seq (Outline.move (m := .in1Low) (.inr ⟨rfl, Option.some_ne_none _⟩) ?_ fun _ => rfl) fun _ => ?_
  · intro cfg gs i _ _ _ hold _
    exact ⟨.inl (by simp [board, exec, Device.setPin]), fun _ => by simp [board, exec, Device.setPin],
      fun h => by simp at h, fun h => by simp at h⟩
  refine Outline.seq (Outline.move (m := .idle) (.inl rfl) ?_ fun _ => rfl)
    fun _ => apart_keep (All.perform (o := Op.store .motoWorkFlag 1) rfl)
  intro cfg gs i _ _ hg hold _
  have hlow := hold.1.in1Low hg
  exact Apart.settled (.inl (by simpa [board, exec, Device.setPin] using hlow))

theorem apart_back :
    (apart allowed depth).Outline .motor .motoEntry motoCaseBack .idle fun _ g => g = .idle := by
  refine Outline.seq (Outline.move (m := .backCase) (.inr ⟨rfl, Option.some_ne_none _⟩) ?_ fun _ => rfl) fun _ => ?_
  · intro cfg gs i _ _ _ hold _
    exact ⟨hold.1.apart, fun h => by simp at h, fun h => by simp at h, fun _ => by simp⟩
  refine Outline.bind (R := fun left g => if left = true then g = .in2Low else g = .idle)
    (Outline.perform ?_) fun left g hg => ?_
  · intro cfg gs i _ hhead hg hold hr
    cases hl : i.level with
    | false => exact ⟨.idle, .inl rfl, Apart.settled hold.1.apart, by simp [board, exec, hl]⟩
    | true =>
      -- the one place where the rule is needed
      have hlow : cfg.state.pins .motoIn2 = false := hr ⟨rfl, hhead, hold.1.backCase hg, hl⟩
      exact ⟨.in2Low, .inr ⟨rfl, Option.some_ne_none _⟩, ⟨hold.1.apart, fun h => by simp at h,
        fun _ => hlow, fun h => by simp at h⟩,
        by simp [board, exec, hl]⟩
  refine Outline.when (fun hl => ?_) fun hl => by simpa [hl] using hg
  rw [if_pos hl] at hg
  subst hg
  refine Outline.seq (Outline.move (m := .idle) (.inl rfl) ?_ fun _ => rfl) fun _ => apart_keep ?_
  · intro cfg gs i _ _ hg hold _
    have hlow := hold.1.in2Low hg
    exact Apart.settled (.inr (by simpa [board, exec, Device.setPin] using hlow))
  · exact All.bind (All.perform rfl) fun _ => All.perform (o := Op.store .motoWorkFlag 2) rfl

theorem apart_motoEntry :
    (apart allowed depth).Outline .motor .motoEntry motoEntry .idle fun _ g => g = .idle := by
  refine Outline.seq (apart_keep poll_raises_nothing) fun _ => ?_
  refine Outline.seq (apart_keep (All.perform rfl)) fun e => ?_
  refine Outline.seq (m := .idle) (Outline.when (fun _ => ?_) fun _ => rfl)
    fun _ => apart_keep (All.perform (o := Op.mdelay 50) rfl)
  refine Outline.ite (fun _ => apart_keep free_raises_nothing) fun _ => ?_
  refine Outline.ite (fun _ => apart_forward) fun _ => ?_
  exact Outline.ite (fun _ => apart_back) fun _ => apart_keep (All.pure ())

theorem apart_begins (c : Call) : (apart allowed depth).Begins c.thread c := by
  by_cases hc : c = .motoEntry
  · subst hc
    refine begins_outline (g := .idle) (fun x hx => by simpa [apart] using hx) (.inl rfl)
      (fun cfg gs hold _ hg _ => hold.1.began _ fun _ => hg) ?_
    exact apart_motoEntry.mono fun _ _ hg => .inl hg
  · have ht : c.thread ≠ .motor := by cases c <;> simp [Call.thread] at hc ⊢
    exact begins_quiet (g := .idle) (fun x hx => by simpa [apart] using hx) (fun _ => .inl rfl)
      (fun cfg gs hold _ _ _ => hold.1.began _ fun e => absurd e ht)
      fun o ho cfg gs i _ _ _ hold _ => hold.1.other ht ho

/-- The two bridge inputs are not both high. -/
def InputsApart (s : Device) : Prop := ¬ (s.pins .motoIn1 = true ∧ s.pins .motoIn2 = true)

instance (s : Device) : Decidable (InputsApart s) := inferInstanceAs (Decidable (¬ _))

/-- The two bridge inputs are never high together in a run whose `Back` cases
drive only from rest. -/
theorem inputs_apart (allowed : Call → Bool) (depth : Nat) (flash : Nat → Nat) (as : List Act)
    (h : (board allowed depth).Admits BackAtRest (start flash) as) :
    InputsApart ((board allowed depth).run (start flash) as).state := by
  have hstart : (apart allowed depth).Good (fun _ => .idle) (start flash) :=
    Good.boot ⟨.inl (congrFun (boot_pins flash) .motoIn1), nofun, nofun, nofun⟩ fun _ => .inl rfl
  obtain ⟨gs, hgood⟩ := run_good (begins_board fun c _ => apart_begins c) hstart h
  rintro ⟨h1, h2⟩
  rcases hgood.1.apart with h | h
  · rw [h] at h1; cases h1
  · rw [h] at h2; cases h2

/-! ### Some runs

A request, then passes of the motor thread. Switches that are not said to be
closed read open. -/

/-- The request, `Moto_Cycle_Timer`, sleep and the motor thread. -/
def motorCalls : Call → Bool
  | .motoCycle _ | .expire .motoCycle | .enterLowPower | .motoEntry => true
  | _ => false

def request : List Act := .start .lcd (.motoCycle .userMain2WinFun) :: turns .lcd {} 13
/-- A pass that finds both switches open: up to its eleventh operation when the valve travels. -/
def openPass (n : Nat) : List Act := .start .motor .motoEntry :: turns .motor {level := true} n
/-- A pass that finds the left switch open and the right one closed. -/
def rightPass (n : Nat) : List Act := .start .motor .motoEntry :: turns .motor {level := true} 2 ++ turns .motor {} n
/-- `Moto_Cycle_Timer` expires with the right switch closed. -/
def expiry : List Act := .start .timer (.expire .motoCycle) :: turns .timer {} 2

/-- Forward travel, dwell, and the beginning of return travel. -/
def toReturn : List Act := request ++ openPass 8 ++ rightPass 26 ++ expiry ++ openPass 8

theorem inputs_apart_toReturn :
    (board motorCalls 0).Admits BackAtRest (start fun _ => 0) toReturn ∧
    InputsApart ((board motorCalls 0).run (start fun _ => 0) toReturn).state :=
  ⟨by decide +kernel, inputs_apart motorCalls 0 (fun _ => 0) toReturn (by decide +kernel)⟩

/-- The right switch closes after the poll has read it open and before the timer
reads it: `Back` is dispatched in forward travel. -/
def crossing : List Act := request ++ openPass 8 ++ openPass 9 ++ expiry ++ turns .motor {level := true} 5

theorem inputs_both_high_crossing :
    ¬ InputsApart ((board motorCalls 0).run (start fun _ => 0) crossing).state := by decide +kernel

/-! ### Direction and supervision -/

/-- A driven valve is supervised in the direction it is driven in. -/
structure Directed (s : Device) : Prop where
  forward : s.pins .motoIn2 = true → s.pins .motoIn1 = false ∧ s.vars .motoWorkFlag = 1
  back : s.pins .motoIn1 = true → s.pins .motoIn2 = false ∧ s.vars .motoWorkFlag = 2

/-- Which of the pins and the flag the motor thread has already set. -/
inductive Driving where
  | idle | in1Low | low | forwardCase | forward | back | in2Low
  deriving DecidableEq

def Driving.Means : Driving → Device → Trace → Prop
  | .idle, s, _ => Directed s
  | .in1Low, s, _ => Directed s ∧ s.pins .motoIn1 = false
  | .low, s, _ => s.pins .motoIn1 = false ∧ s.pins .motoIn2 = false
  | .forwardCase, s, tr => Directed s ∧ lastOp .motor tr = some (.mark (.motoCase .forward))
  | .forward, s, _ => s.pins .motoIn1 = false
  | .back, _, _ => True
  | .in2Low, s, _ => s.pins .motoIn2 = false

/-- When the `Forward` case reads the right switch closed, the return input is low. -/
def ForwardAtRest (cfg : Conf) : Act → Prop
  | .step t i =>
    t = .motor ∧ cfg.head t = some (.pinRead .motoRight) ∧ lastOp t cfg.trace = some (.mark (.motoCase .forward)) ∧
      i.level = false → cfg.state.pins .motoIn1 = false
  | .start _ _ => True

instance (cfg : Conf) : ∀ a, Decidable (ForwardAtRest cfg a)
  | .step _ _ => inferInstanceAs (Decidable (_ → _))
  | .start _ _ => isTrue trivial

structure Supervised (gs : Thread → Driving) (s : Device) (tr : Trace) : Prop where
  means : (gs .motor).Means s tr
  fresh : lastOp .motor tr = none → gs .motor = .idle

def supervised (allowed : Call → Bool) (depth : Nat) : Protocol (board allowed depth) Driving where
  Rule := ForwardAtRest
  Inv := Supervised
  At := fun t c g => g = .idle ∨ (t = .motor ∧ c ≠ none)

/-- Lowered inputs do not break supervision. -/
theorem Directed.lowered {s s' : Device} (h : Directed s) (hf : s'.vars .motoWorkFlag = s.vars .motoWorkFlag)
    (h1 : s.pins .motoIn1 = false → s'.pins .motoIn1 = false)
    (h2 : s.pins .motoIn2 = false → s'.pins .motoIn2 = false) : Directed s' := by
  constructor
  · intro hp
    have hp' : s.pins .motoIn2 = true := by
      by_contra hn
      rw [h2 (by simpa using hn)] at hp
      cases hp
    exact ⟨h1 (h.forward hp').1, hf.trans (h.forward hp').2⟩
  · intro hp
    have hp' : s.pins .motoIn1 = true := by
      by_contra hn
      rw [h1 (by simpa using hn)] at hp
      cases hp
    exact ⟨h2 (h.back hp').1, hf.trans (h.back hp').2⟩

theorem Driving.Means.lowered {g : Driving} {s s' : Device} {tr tr' : Trace} (h : g.Means s tr)
    (hf : s'.vars .motoWorkFlag = s.vars .motoWorkFlag)
    (h1 : s.pins .motoIn1 = false → s'.pins .motoIn1 = false)
    (h2 : s.pins .motoIn2 = false → s'.pins .motoIn2 = false)
    (hl : g = .forwardCase → lastOp .motor tr' = lastOp .motor tr) : g.Means s' tr' := by
  cases g with
  | idle => exact Directed.lowered h hf h1 h2
  | in1Low => exact ⟨h.1.lowered hf h1 h2, h1 h.2⟩
  | low => exact ⟨h1 h.1, h2 h.2⟩
  | forwardCase => exact ⟨h.1.lowered hf h1 h2, (hl rfl).trans h.2⟩
  | forward => exact h1 h
  | back => trivial
  | in2Low => exact h2 h

theorem Supervised.other {gs : Thread → Driving} {s : Device} {tr : Trace} (h : Supervised gs s tr) {t : Thread}
    {o : Op} {i : Input} (ht : t ≠ .motor) (hmay : may t o = true) :
    Supervised gs (exec t o i s).1 (.did t o i :: tr) where
  means := h.means.lowered (motoWorkFlag_other ht hmay) (bridge_lowered (.inl rfl) ht hmay)
    (bridge_lowered (.inr rfl) ht hmay) fun _ => lastOp_did_of_ne ht o i tr
  fresh := fun hl => h.fresh (by rwa [lastOp_did_of_ne ht] at hl)

theorem Supervised.began {gs : Thread → Driving} {s : Device} {tr : Trace} (h : Supervised gs s tr) {t : Thread}
    (c : Call) (ht : t = .motor → gs .motor = .idle) : Supervised gs (enter c s) (.began t c :: tr) := by
  have hp := enter_pins c s
  constructor
  · refine h.means.lowered (enter_motoWorkFlag c s) (by rw [hp]; exact id) (by rw [hp]; exact id) fun hg => ?_
    exact lastOp_began_of_ne (fun e => by rw [ht e] at hg; cases hg) c tr
  · intro hl
    by_cases e : t = .motor
    · exact ht e
    · exact h.fresh (by rwa [lastOp_began_of_ne e] at hl)

/-- The operation is about neither the pins nor the flag. -/
def unrelated : Op → Bool
  | .pinWrite _ _ => false
  | .store v _ => v != .motoWorkFlag
  | _ => true

theorem Supervised.motor {gs : Thread → Driving} {s : Device} {tr : Trace} {o : Op} {i : Input} {g : Driving}
    (h : g.Means s (.did .motor o i :: tr)) : Supervised (Function.update gs .motor g) s (.did .motor o i :: tr) :=
  ⟨by simpa using h, fun hl => by simp at hl⟩

theorem supervised_keep {α : Type} {p : Code α} (hp : p.All fun o => unrelated o = true) :
    (supervised allowed depth).Outline .motor .motoEntry p .idle fun _ x => x = .idle := by
  refine Outline.keep (.inr ⟨rfl, Option.some_ne_none _⟩) (hp.mono fun o ho cfg gs i _ _ hgs hold _ => ?_) fun _ => rfl
  rw [show gs = Function.update gs .motor .idle by rw [← hgs, Function.update_eq_self]]
  have hpin : ∀ p, (exec .motor o i cfg.state).1.pins p = cfg.state.pins p := fun p =>
    exec_pins (fun b e => by rw [e] at ho; cases ho) i
  have hflag : (exec .motor o i cfg.state).1.vars .motoWorkFlag = cfg.state.vars .motoWorkFlag :=
    exec_vars (v := .motoWorkFlag) (fun n e => by rw [e] at ho; simp [unrelated] at ho) (fun _ => nofun) nofun i
  refine Supervised.motor (Driving.Means.lowered (hgs ▸ hold.1.means) hflag ?_ ?_ nofun)
  · exact fun h => (hpin _).trans h
  · exact fun h => (hpin _).trans h

/-- One step of the motor thread, from what its mark means to what the next one means. -/
theorem supervised_move {o : Op} {g m : Driving}
    (h : ∀ s tr i, g.Means s tr → m.Means (exec .motor o i s).1 (.did .motor o i :: tr)) :
    (supervised allowed depth).Outline .motor .motoEntry (perform o) g fun _ x => x = m :=
  Outline.move (.inr ⟨rfl, Option.some_ne_none _⟩)
    (fun cfg _ i _ _ hg hold _ => Supervised.motor (h cfg.state cfg.trace i (hg ▸ hold.1.means))) fun _ => rfl

theorem lower_in1 :
    (supervised allowed depth).Outline .motor .motoEntry (pinWrite .motoIn1 false) .idle fun _ x => x = .in1Low :=
  supervised_move fun s tr i h => by
    have h1 : (exec .motor (.pinWrite .motoIn1 false) i s).1.pins .motoIn1 = false := by simp [exec, Device.setPin]
    exact ⟨Directed.lowered h rfl (fun _ => h1) (fun h2 => by simpa [exec, Device.setPin] using h2), h1⟩

theorem lower_in2 :
    (supervised allowed depth).Outline .motor .motoEntry (pinWrite .motoIn2 false) .in1Low fun _ x => x = .low :=
  supervised_move fun s tr i h => by
    simpa [Driving.Means, exec, Device.setPin] using h.2

theorem store_flag_low (n : Nat) :
    (supervised allowed depth).Outline .motor .motoEntry (store .motoWorkFlag n) .low fun _ x => x = .idle :=
  supervised_move fun s tr i h => by
    constructor
    · intro h2
      simp [exec, Device.store, h.2] at h2
    · intro h1
      simp [exec, Device.store, h.1] at h1

/-- The valve is stopped and the flag cleared, in this order. -/
theorem supervised_stop {α : Type} {p : Code α} (hp : p.All fun o => unrelated o = true) :
    (supervised allowed depth).Outline .motor .motoEntry
      (do pinWrite .motoIn1 false; pinWrite .motoIn2 false; store .motoWorkFlag 0; p) .idle fun _ x => x = .idle :=
  lower_in1.seq fun _ => lower_in2.seq fun _ => (store_flag_low 0).seq fun _ => supervised_keep hp

theorem supervised_free :
    (supervised allowed depth).Outline .motor .motoEntry motoCaseFree .idle fun _ x => x = .idle :=
  (supervised_keep (All.perform rfl)).seq fun _ =>
    lower_in1.seq fun _ => lower_in2.seq fun _ => store_flag_low 0

theorem supervised_forward :
    (supervised allowed depth).Outline .motor .motoEntry motoCaseForward .idle fun _ x => x = .idle := by
  have hmark : (supervised allowed depth).Outline .motor .motoEntry (mark (.motoCase .forward)) .idle
      fun _ x => x = .forwardCase := supervised_move fun s tr i h => ⟨h, by simp⟩
  refine hmark.seq fun _ => ?_
  refine Outline.bind (R := fun right g => if right = true then g = .idle else g = .in1Low)
    (Outline.perform ?_) fun right g hg => ?_
  · intro cfg gs i _ hhead hg hold hr
    have hcase : Directed cfg.state ∧ lastOp .motor cfg.trace = some (.mark (.motoCase .forward)) := by
      simpa [hg, Driving.Means] using hold.1.means
    cases hl : i.level with
    | true =>
      exact ⟨.idle, .inl rfl, Supervised.motor hcase.1, by simp [board, exec, hl]⟩
    | false =>
      -- the flag is about to be set without the pins
      have hlow : cfg.state.pins .motoIn1 = false := hr ⟨rfl, hhead, hcase.2, hl⟩
      exact ⟨.in1Low, .inr ⟨rfl, Option.some_ne_none _⟩, Supervised.motor ⟨hcase.1, hlow⟩, by simp [board, exec, hl]⟩
  refine Outline.ite (fun hr => ?_) fun hr => ?_
  · rw [if_pos hr] at hg
    subst hg
    have hraise : (supervised allowed depth).Outline .motor .motoEntry (pinWrite .motoIn2 true) .in1Low
        fun _ x => x = .forward := supervised_move fun s tr i h => by
      simpa [Driving.Means, exec, Device.setPin] using h.2
    have hstore : (supervised allowed depth).Outline .motor .motoEntry (store .motoWorkFlag 1) .forward
        fun _ x => x = .idle := supervised_move fun s tr i h => by
      have h1 : s.pins .motoIn1 = false := h
      exact ⟨fun _ => ⟨h1, by simp [exec, Device.store, Var.width]⟩, fun h' => by simp [exec, Device.store, h1] at h'⟩
    exact lower_in1.seq fun _ => hraise.seq fun _ => hstore
  · rw [if_neg hr] at hg
    subst hg
    exact supervised_move fun s tr i h =>
      ⟨fun h2 => ⟨h.2, by simp [exec, Device.store, Var.width]⟩, fun h' => by simp [exec, Device.store, h.2] at h'⟩

theorem supervised_back :
    (supervised allowed depth).Outline .motor .motoEntry motoCaseBack .idle fun _ x => x = .idle := by
  refine (supervised_keep (All.perform rfl)).seq fun _ => ?_
  refine (supervised_keep (All.perform rfl)).seq fun (left : Bool) => ?_
  refine Outline.when (fun _ => ?_) fun _ => rfl
  have hraise : (supervised allowed depth).Outline .motor .motoEntry (pinWrite .motoIn1 true) .idle
      fun _ x => x = .back := supervised_move fun _ _ _ _ => trivial
  have hlower : (supervised allowed depth).Outline .motor .motoEntry (pinWrite .motoIn2 false) .back
      fun _ x => x = .in2Low := supervised_move fun s tr i h => by simp [Driving.Means, exec, Device.setPin]
  have hstore : (supervised allowed depth).Outline .motor .motoEntry (store .motoWorkFlag 2) .in2Low
      fun _ x => x = .idle := supervised_move fun s tr i h => by
    have h2 : s.pins .motoIn2 = false := h
    exact ⟨fun h' => by simp [exec, Device.store, h2] at h', fun _ => ⟨h2, by simp [exec, Device.store, Var.width]⟩⟩
  exact hraise.seq fun _ => hlower.seq fun _ => hstore

theorem supervised_rightLimit :
    (supervised allowed depth).Outline .motor .motoEntry rightLimit .idle fun _ x => x = .idle := by
  refine (supervised_keep (All.perform rfl)).seq fun _ => supervised_stop ?_
  exact All.bind (all_tdsWork rfl rfl rfl) fun _ => All.bind (All.perform rfl) fun _ =>
    All.bind (all_tdsWork rfl rfl rfl) fun _ => All.pure _

theorem supervised_leftLimit :
    (supervised allowed depth).Outline .motor .motoEntry leftLimit .idle fun _ x => x = .idle := by
  refine supervised_stop ?_
  exact All.bind (all_screenTimerRefresh rfl rfl) fun _ => All.bind (All.perform rfl) fun _ =>
    All.bind (All.perform rfl) fun _ => All.ite (All.perform rfl) (All.perform rfl)

theorem supervised_overload :
    (supervised allowed depth).Outline .motor .motoEntry motoOverload .idle fun _ x => x = .idle := by
  refine supervised_stop ?_
  exact All.bind (All.bind (all_countUp rfl (fun _ => rfl) fun _ => all_flashSet rfl rfl rfl) fun _ => All.perform rfl)
    fun _ => All.bind (All.perform rfl) fun _ => All.bind (All.perform rfl) fun _ => all_screenTimerRefresh rfl rfl

theorem supervised_poll :
    (supervised allowed depth).Outline .motor .motoEntry motoPoll .idle fun _ x => x = .idle := by
  refine (supervised_keep (All.perform rfl)).seq fun (working : Nat) => ?_
  refine Outline.when (fun _ => ?_) fun _ => rfl
  refine Outline.seq (m := .idle) ?_ fun _ => ?_
  · refine (supervised_keep (All.perform rfl)).seq fun (left : Bool) => ?_
    refine (supervised_keep (All.perform (o := Op.store .leftStatus left.toNat) rfl)).seq fun _ => ?_
    refine (supervised_keep (All.perform rfl)).seq fun (right : Bool) => ?_
    refine (supervised_keep (All.perform (o := Op.store .rightStatus right.toNat) rfl)).seq fun _ => ?_
    refine (supervised_keep (All.perform rfl)).seq fun (r : Nat) => ?_
    refine (supervised_keep (All.perform rfl)).seq fun (f : Nat) => ?_
    refine Outline.seq (m := .idle) (Outline.when (fun _ => supervised_rightLimit) fun _ => rfl) fun _ => ?_
    refine (supervised_keep (All.perform rfl)).seq fun (l : Nat) => ?_
    refine (supervised_keep (All.perform rfl)).seq fun (f : Nat) => ?_
    exact Outline.when (fun _ => supervised_leftLimit) fun _ => rfl
  · refine (supervised_keep (All.perform rfl)).seq fun (voltage : Nat) => ?_
    exact Outline.when (fun _ => supervised_overload) fun _ => rfl

theorem supervised_motoEntry :
    (supervised allowed depth).Outline .motor .motoEntry motoEntry .idle fun _ x => x = .idle := by
  refine supervised_poll.seq fun _ => ?_
  refine (supervised_keep (All.perform rfl)).seq fun (e : MotoBits) => ?_
  refine Outline.seq (m := .idle) (Outline.when (fun _ => ?_) fun _ => rfl)
    fun _ => supervised_keep (All.perform (o := Op.mdelay 50) rfl)
  refine Outline.ite (fun _ => supervised_free) fun _ => ?_
  refine Outline.ite (fun _ => supervised_forward) fun _ => ?_
  exact Outline.ite (fun _ => supervised_back) fun _ => supervised_keep (All.pure ())

theorem supervised_begins (c : Call) : (supervised allowed depth).Begins c.thread c := by
  by_cases hc : c = .motoEntry
  · subst hc
    refine begins_outline (g := .idle) (fun x hx => by simpa [supervised] using hx) (.inl rfl)
      (fun cfg gs hold _ hg _ => hold.1.began _ fun _ => hg) ?_
    exact supervised_motoEntry.mono fun _ _ hg => .inl hg
  · have ht : c.thread ≠ .motor := by cases c <;> simp [Call.thread] at hc ⊢
    exact begins_quiet (g := .idle) (fun x hx => by simpa [supervised] using hx) (fun _ => .inl rfl)
      (fun cfg gs hold _ _ _ => hold.1.began _ fun e => absurd e ht)
      fun o ho cfg gs i _ _ _ hold _ => hold.1.other ht ho

/-- The motor thread is at the head of its loop: between two passes, or in a pass
in which it has done nothing yet. -/
def AtHead (cfg : Conf) : Prop := cfg.task .motor = none ∨ lastOp .motor cfg.trace = none

/-- A pass begun in `s` reads the switch `p` and the motor current, whatever the
other threads do meanwhile. -/
def Tests (s : Device) (p : Pin) : Prop :=
  ∃ k, motoEntry = .op (.load .motoWorkFlag) k ∧ (k (s.vars .motoWorkFlag)).Must (· = .pinRead p) ∧
    (k (s.vars .motoWorkFlag)).Must (· = .adcRead .moto)

/-- Every pass begun with the flag set reads both switches and the current. -/
theorem tests_of_working {s : Device} (h : s.vars .motoWorkFlag > 0) {p : Pin} (hp : p = .motoLeft ∨ p = .motoRight) :
    Tests s p := by
  refine ⟨_, rfl, Must.first _ ?_, Must.first _ ?_⟩
  · show (when _ _).Must _
    rw [Prog.when, if_pos h]
    refine Must.first _ ?_
    rcases hp with rfl | rfl
    · exact Must.first _ (Must.perform rfl)
    · exact Must.later _ fun _ => Must.later _ fun _ => Must.first _ (Must.perform rfl)
  · show (when _ _).Must _
    rw [Prog.when, if_pos h]
    exact Must.later _ fun _ => Must.first _ (Must.perform rfl)

/-- At the head of the loop the valve is driven only in the direction that is
supervised, and a driven valve is tested in the pass that follows. -/
def DrivenSupervised (cfg : Conf) : Prop :=
  AtHead cfg →
    (cfg.state.pins .motoIn1 = false ∧ cfg.state.pins .motoIn2 = true →
      cfg.state.vars .motoWorkFlag = 1 ∧ Tests cfg.state .motoRight) ∧
    (cfg.state.pins .motoIn1 = true ∧ cfg.state.pins .motoIn2 = false →
      cfg.state.vars .motoWorkFlag = 2 ∧ Tests cfg.state .motoLeft) ∧
    ¬ (cfg.state.pins .motoIn1 = true ∧ cfg.state.pins .motoIn2 = true)

/-- The valve is driven supervised in a run whose `Forward` cases find the right
switch closed only when the valve is not driven back. -/
theorem driven_supervised (allowed : Call → Bool) (depth : Nat) (flash : Nat → Nat) (as : List Act)
    (h : (board allowed depth).Admits ForwardAtRest (start flash) as) :
    DrivenSupervised ((board allowed depth).run (start flash) as) := by
  intro hhead
  have hboot : Directed (boot flash) := by
    constructor
    · intro h2
      rw [boot_pins] at h2
      cases h2
    · intro h1
      rw [boot_pins] at h1
      cases h1
  have hstart : (supervised allowed depth).Good (fun _ => .idle) (start flash) :=
    Good.boot ⟨hboot, fun _ => rfl⟩ fun _ => .inl rfl
  obtain ⟨gs, hgood⟩ := run_good (begins_board fun c _ => supervised_begins c) hstart h
  have hidle : gs .motor = .idle := by
    rcases hhead with hnone | hlast
    · simpa [supervised] using hgood.idle hnone
    · exact hgood.1.fresh hlast
  have hdir : Directed ((board allowed depth).run (start flash) as).state := by
    have := hgood.1.means
    rwa [hidle] at this
  refine ⟨fun hp => ?_, fun hp => ?_, fun hp => ?_⟩
  · have hf := (hdir.forward hp.2).2
    exact ⟨hf, tests_of_working (by rw [hf]; decide) (.inr rfl)⟩
  · have hf := (hdir.back hp.1).2
    exact ⟨hf, tests_of_working (by rw [hf]; decide) (.inl rfl)⟩
  · have := (hdir.forward hp.2).1
    rw [hp.1] at this
    cases this

theorem driven_supervised_toReturn :
    (board motorCalls 0).Admits ForwardAtRest (start fun _ => 0) toReturn ∧
    DrivenSupervised ((board motorCalls 0).run (start fun _ => 0) toReturn) :=
  ⟨by decide +kernel, driven_supervised motorCalls 0 (fun _ => 0) toReturn (by decide +kernel)⟩

/-- A second request reads `MotoWorkFlag` in the dwell and is interrupted there: the timer
expires and the motor thread starts the return travel. Its `Forward` is then dispatched
before the valve has left the right switch. -/
def lateRequest : List Act :=
  request ++ openPass 8 ++ rightPass 26 ++ .start .lcd (.motoCycle .userMain2WinFun) :: turns .lcd {} 5 ++ expiry ++
    openPass 8 ++ turns .lcd {} 8 ++ rightPass 13

theorem driven_unsupervised_lateRequest :
    ¬ DrivenSupervised ((board motorCalls 0).run (start fun _ => 0) lateRequest) := by
  intro h
  have hhead : AtHead ((board motorCalls 0).run (start fun _ => 0) lateRequest) :=
    .inl (Option.isNone_iff_eq_none.mp (by decide +kernel))
  have hflag := ((h hhead).2.1 (by decide +kernel)).1
  exact absurd hflag (by decide +kernel)

end Backwash.Motor
