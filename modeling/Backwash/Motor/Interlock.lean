import Backwash.Concurrent.Owner
import Backwash.Motor.Refusal

/-! The low-voltage interlock.

`BatteryWatcherCallback` sets `LowVoltageFlag` when the battery reads empty, and clears it
when the battery has risen by more than 200 since the last reading, whatever it has risen to.
The three variables belong to the battery thread. -/
namespace Backwash.Motor
open Concurrent Prog Firmware

/-- `NowBatVol<2650&&NowBatVol>1000`. -/
def Empty (v : Nat) : Prop := 1000 < v ∧ v < 2650

instance (v : Nat) : Decidable (Empty v) := inferInstanceAs (Decidable (_ ∧ _))

/-- When the battery has been judged and was empty, the interlock is engaged. -/
def Engaged (cfg : Conf) : Prop :=
  cfg.task .battery = none → Empty (cfg.state.vars .nowBatVol) → cfg.state.vars .lowVoltageFlag = 1

/-- No reading taken with the interlock engaged is empty and 200 above the one before. -/
def NoEmptyRise (cfg : Conf) : Act → Prop
  | .step t i => cfg.head t = some (.adcRead .bat) → cfg.state.vars .lowVoltageFlag ≠ 0 →
      Empty (i.value % 2 ^ 32) → i.value % 2 ^ 32 ≤ 200 + cfg.state.vars .pastBatVol
  | .start _ _ => True

instance (cfg : Conf) : ∀ a, Decidable (NoEmptyRise cfg a)
  | .step _ _ => inferInstanceAs (Decidable (_ → _))
  | .start _ _ => instDecidableTrue

/-! ### What the battery thread knows -/

structure Watch where
  now : Nat
  past : Nat
  flag : Nat

namespace Watch

def after : (o : Op) → Res o → Watch → Watch
  | .store v n, _, x => match v with
    | .nowBatVol => {x with now := n % 2 ^ 32}
    | .pastBatVol => {x with past := n % 2 ^ 32}
    | .lowVoltageFlag => {x with flag := n % 2 ^ 8}
    | _ => x
  | _, _, x => x

def can : (o : Op) → Watch → Res o → Prop
  | .load v, x, r => match v with
    | .nowBatVol => r = x.now ∧ r < 2 ^ 32
    | .pastBatVol => r = x.past
    | .lowVoltageFlag => r = x.flag
    | _ => True
  | .adcRead c, x, r => match c with
    | .bat => x.flag ≠ 0 → Empty (r % 2 ^ 32) → r % 2 ^ 32 ≤ 200 + x.past
    | _ => True
  | _, _, _ => True

structure Sees (x : Watch) (s : Device) : Prop where
  now : s.vars .nowBatVol = x.now
  past : s.vars .pastBatVol = x.past
  flag : s.vars .lowVoltageFlag = x.flag
  fits : x.now < 2 ^ 32

/-- The flag is a boolean, and set if the last reading was empty. -/
structure Judged (x : Watch) : Prop where
  flag : x.flag ≤ 1
  engaged : Empty x.now → x.flag = 1

variable {t : Thread} {o : Op} {i : Input} {s : Device} {x : Watch}

theorem Sees.own (h : x.Sees s) : (x.after o (exec t o i s).2).Sees (exec t o i s).1 := by
  cases o with
  | store v n =>
    cases v <;> first
      | exact ⟨h.now, h.past, h.flag, h.fits⟩
      | exact ⟨by simp [exec, after, Device.store, Var.width, h.now], by simp [exec, after, Device.store, Var.width, h.past],
          by simp [exec, after, Device.store, Var.width, h.flag], by first | exact h.fits | exact Nat.mod_lt _ (by decide)⟩
  | stop2 =>
    simp only [exec, after]
    split
    · exact ⟨h.now, h.past, h.flag, h.fits⟩
    · exact h
  | _ => exact ⟨h.now, h.past, h.flag, h.fits⟩

theorem Sees.other (h : x.Sees s) (ht : t ≠ .battery) (hmay : may t o = true) : x.Sees (exec t o i s).1 := by
  have hvars : ∀ v, v = .nowBatVol ∨ v = .pastBatVol ∨ v = .lowVoltageFlag → (exec t o i s).1.vars v = s.vars v := by
    intro v hv
    refine exec_vars (fun n e => ?_) (fun _ => by rcases hv with rfl | rfl | rfl <;> simp)
      (by rcases hv with rfl | rfl | rfl <;> decide) i
    subst e
    rcases hv with rfl | rfl | rfl <;> (cases t <;> first | exact absurd rfl ht | cases hmay)
  exact ⟨(hvars _ (.inl rfl)).trans h.now, (hvars _ (.inr (.inl rfl))).trans h.past,
    (hvars _ (.inr (.inr rfl))).trans h.flag, h.fits⟩

theorem Sees.began (h : x.Sees s) (c : Call) : x.Sees (enter c s) := by
  have hvars : ∀ v, v = .nowBatVol ∨ v = .pastBatVol ∨ v = .lowVoltageFlag → (enter c s).vars v = s.vars v := fun v hv =>
    enter_vars (fun _ => by rcases hv with rfl | rfl | rfl <;> simp) (by rcases hv with rfl | rfl | rfl <;> decide) c s
  exact ⟨(hvars _ (.inl rfl)).trans h.now, (hvars _ (.inr (.inl rfl))).trans h.past,
    (hvars _ (.inr (.inr rfl))).trans h.flag, h.fits⟩

end Watch

/-- The battery thread and its readings. -/
def watch (allowed : Call → Bool) (depth : Nat) : Owner (board allowed depth) Watch where
  can := Watch.can
  after := Watch.after
  Safe := fun _ => True
  thread := .battery
  may := fun t o => may t o = true
  Rule := NoEmptyRise
  Sees := fun x s _ => x.Sees s
  Rest := Watch.Judged
  first := fun _ x => x
  body_may := @ready_may allowed depth
  own := fun {cfg x o i} _ hhead hr hsees => by
    refine ⟨?_, hsees.own⟩
    cases o with
    | load v =>
      cases v with
      | nowBatVol => exact ⟨hsees.now, Nat.lt_of_le_of_lt (Nat.le_of_eq hsees.now) hsees.fits⟩
      | pastBatVol => exact hsees.past
      | lowVoltageFlag => exact hsees.flag
      | _ => exact trivial
    | adcRead c =>
      cases c with
      | bat =>
        intro hflag hempty
        rw [← hsees.past]
        exact hr hhead (by rwa [hsees.flag]) hempty
      | _ => exact trivial
    | _ => exact trivial
  other := fun ht hmay _ _ hsees => hsees.other ht hmay
  begins := fun _ _ _ _ hsees => ⟨trivial, hsees.began _⟩
  begins_other := fun _ _ _ hsees => hsees.began _

section
variable {allowed : Call → Bool} {depth : Nat} {x : Watch}

/-- A reading is judged. -/
theorem run_batteryWatcherCallback (h : x.Judged) :
    (watch allowed depth).Run batteryWatcherCallback x fun _ y => y.Judged := by
  refine Sight.Run.step fun (n : Nat) hn => ⟨trivial, ?_⟩
  obtain ⟨rfl, hlt⟩ := hn
  refine Sight.Run.step fun _ _ => ⟨trivial, Sight.Run.step fun (v : Nat) hv => ⟨trivial, ?_⟩⟩
  have hrise : x.flag ≠ 0 → Empty (v % 2 ^ 32) → v % 2 ^ 32 ≤ 200 + x.now := by
    have : x.flag ≠ 0 → Empty (v % 2 ^ 32) → v % 2 ^ 32 ≤ 200 + x.now % 2 ^ 32 := hv
    rwa [Nat.mod_eq_of_lt hlt] at this
  refine Sight.Run.step fun _ _ => ⟨trivial, Sight.Run.step fun (low : Nat) hlow => ⟨trivial, ?_⟩⟩
  obtain rfl : low = x.flag := hlow
  refine Sight.Run.step fun (now : Nat) hnow => ⟨trivial, Sight.Run.step fun (past : Nat) hpast => ⟨trivial, ?_⟩⟩
  obtain rfl : now = v % 2 ^ 32 := hnow.1
  obtain rfl : past = x.now := by
    have : past = x.now % 2 ^ 32 := hpast
    rwa [Nat.mod_eq_of_lt hlt] at this
  have hflag := h.flag
  refine Sight.Run.bind (R := fun _ (y : Watch) => y.Judged) (Sight.Run.ite (fun hlow => ?_) fun hlow => ?_) fun _ y hy =>
    Sight.Run.perform fun _ _ => ⟨trivial, hy⟩
  · refine Sight.Run.when (fun hnew => ?_) fun _ => ⟨hflag, fun _ => ?_⟩
    -- the interlock is released: the reading is not empty
    · have hnot : ¬ Empty (v % 2 ^ 32) := fun e => by
        have := hrise hlow e
        omega
      refine Sight.Run.step fun _ _ => ⟨trivial, Sight.Run.when (fun _ => ?_) fun _ => ?_⟩
      · exact Sight.Run.perform fun _ _ => ⟨trivial, ⟨Nat.zero_le 1, fun e => absurd e hnot⟩⟩
      · exact ⟨Nat.zero_le 1, fun e => absurd e hnot⟩
    · show x.flag = 1
      omega
  · refine Sight.Run.ite (fun _ => ?_) fun hnot => ?_
    · exact Sight.Run.step fun _ _ => ⟨trivial, Sight.Run.perform fun _ _ => ⟨trivial, ⟨Nat.le_refl 1, fun _ => rfl⟩⟩⟩
    · refine Sight.Run.perform fun _ _ => ⟨trivial, ⟨Nat.zero_le 1, fun e => absurd ⟨e.2, e.1⟩ hnot⟩⟩

end

/-- Every run is seen by the battery thread. -/
theorem watch_seen (allowed : Call → Bool) (depth : Nat) (flash : Nat → Nat) (as : List Act)
    (h : (board allowed depth).Admits NoEmptyRise (start flash) as) :
    ∃ x : Watch, x.Sees ((board allowed depth).run (start flash) as).state ∧
      (((board allowed depth).run (start flash) as).task .battery = none → x.Judged) := by
  have hzero : ∀ v, v = .nowBatVol ∨ v = .pastBatVol ∨ v = .lowVoltageFlag → (boot flash).vars v = 0 := fun v hv =>
    (boot_vars (fun _ => by rcases hv with rfl | rfl | rfl <;> rfl) (fun _ => by rcases hv with rfl | rfl | rfl <;> simp)
      (by rcases hv with rfl | rfl | rfl <;> decide) flash).trans (by rcases hv with rfl | rfl | rfl <;> rfl)
  have hsees : Watch.Sees ⟨0, 0, 0⟩ (boot flash) :=
    ⟨hzero _ (.inl rfl), hzero _ (.inr (.inl rfl)), hzero _ (.inr (.inr rfl)), by decide⟩
  obtain ⟨x, -, hx, hrest⟩ := Owner.run_sees (N := watch allowed depth) (y := ⟨0, 0, 0⟩) (fun c s x hready hrest _ => by
    have hr : (Thread.battery = c.thread ∧ allowed c = true) ∧ c.enabled s = true := by simpa [board, watch] using hready
    obtain ⟨⟨ht, -⟩, -⟩ := hr
    cases c with
    | battery => exact run_batteryWatcherCallback hrest
    | _ => cases ht) ⟨Nat.zero_le 1, fun e => absurd e (by decide)⟩ trivial hsees h
  exact ⟨x, hx, hrest⟩

/-- The interlock is engaged after every empty reading, in every run without an empty rise. -/
theorem interlock_engaged (allowed : Call → Bool) (depth : Nat) (flash : Nat → Nat) (as : List Act)
    (h : (board allowed depth).Admits NoEmptyRise (start flash) as) :
    Engaged ((board allowed depth).run (start flash) as) := by
  obtain ⟨x, hx, hrest⟩ := watch_seen allowed depth flash as h
  intro hidle hempty
  rw [hx.flag]
  exact (hrest hidle).engaged (by rwa [hx.now] at hempty)

/-- A battery that runs down. -/
theorem interlock_engaged_falling :
    (board (fun _ => true) 0).Admits NoEmptyRise (start fun _ => 0) (batteryReads 3100 ++ batteryReads 2600) ∧
    Engaged ((board (fun _ => true) 0).run (start fun _ => 0) (batteryReads 3100 ++ batteryReads 2600)) := by
  have hadmits : (board (fun _ => true) 0).Admits NoEmptyRise (start fun _ => 0)
      (batteryReads 3100 ++ batteryReads 2600) := by decide +kernel
  exact ⟨hadmits, interlock_engaged (fun _ => true) 0 (fun _ => 0) _ hadmits⟩

/-- An empty battery recovers by 300 and is still empty: the interlock is released. -/
theorem interlock_released :
    ¬ Engaged ((board (fun _ => true) 0).run (start fun _ => 0) (batteryReads 2000 ++ batteryReads 2300)) := by
  intro h
  have hidle : ((board (fun _ => true) 0).run (start fun _ => 0) (batteryReads 2000 ++ batteryReads 2300)).task .battery =
      none := Option.isNone_iff_eq_none.mp (by decide +kernel)
  exact absurd (h hidle (by decide +kernel)) (by decide +kernel)

end Backwash.Motor
