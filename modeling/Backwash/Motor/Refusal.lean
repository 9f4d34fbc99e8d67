import Backwash.Motor.Cycle

/-! A request that is refused.

`Moto_Cycle` clears the elapsed hours of both schedules before it asks whether it may
start a backwash. -/
namespace Backwash.Motor
open Concurrent Prog Firmware

/-- `Moto_Cycle` does not start a backwash: the valve travels, or the battery is low and the
DC channel reads as `i` says. -/
def Refused (s : Device) (i : Input) : Prop :=
  s.vars .motoWorkFlag ≠ 0 ∨ (s.vars .lowVoltageFlag ≠ 0 ∧ i.value ≤ 3000)

/-- Neither the schedules nor the motor nor the timers have moved. -/
structure Untouched (s s' : Device) : Prop where
  rtcTime : ∀ k, s'.vars (.rtcTime k) = s.vars (.rtcTime k)
  moto : s'.moto = s.moto
  timer : s'.timer = s.timer

/-- What a call of `Moto_Cycle` runs as. -/
def requestCall : Caller → Call
  | .shell => .shell .motoCycle
  | caller => .motoCycle caller

/-- The call leaves the schedules and the motor alone, all the while. -/
def LeavesAlone (M : System Res Thread Call Device Input) (cfg : Conf) (caller : Caller) (i : Input) : Prop :=
  ∀ n, Untouched cfg.state (M.run cfg (alone (requestCall caller) i n)).state

section
variable {t : Thread} {i : Input} {allowed : Call → Bool} {depth : Nat} {s s' : Device} {tr : Trace}

/-- The operation changes nothing that a refusal is to leave. -/
def sparing : Op → Bool
  | .load _ | .adcRead _ | .jumpSend _ => true
  | .store v _ => v == .jumpToBatteryEmptyFlag
  | _ => false

theorem Untouched.sparing {o : Op} (h : Untouched s s') (ho : sparing o = true) : Untouched s (exec t o i s').1 := by
  cases o with
  | store v n =>
    obtain rfl : v = .jumpToBatteryEmptyFlag := by simpa [Motor.sparing] using ho
    exact ⟨fun k => (by simpa [exec, Device.store] using h.rtcTime k), h.moto, h.timer⟩
  | jumpSend b => exact ⟨h.rtcTime, h.moto, h.timer⟩
  | _ => first | exact h | cases ho

theorem along_sparing {p : Code Unit} (hp : p.All fun o => sparing o = true) (h : Untouched s s') :
    (board allowed depth).Along t i (fun s' _ => Untouched s s') p s' tr :=
  System.Along.of_all (R := fun s' _ => Untouched s s') (hp.mono fun _ ho _ _ h => h.sparing ho) (fun _ _ h => h) h

/-- Clearing the hours again changes nothing. -/
theorem untouched_clear (k : Schedule) (hk : s.vars (.rtcTime k) = 0) (h : Untouched s s') :
    Untouched s (s'.store (.rtcTime k) 0) := by
  refine ⟨fun j => ?_, h.moto, h.timer⟩
  by_cases hj : j = k
  · subst hj
    simp [Device.store, hk]
  · simpa [Device.store, hj] using h.rtcTime j

/-- What follows the clearing, in a call that is refused. -/
theorem along_refused (href : Refused s' i) (h : Untouched s s') :
    (board allowed depth).Along t i (fun s' _ => Untouched s s') (do
      let supplied ← motoCycleSupplied
      if supplied = true then do
        let working ← load .motoWorkFlag
        when (working = 0) motoCycleAccept
      else do
        jumpe
        jumpToBatteryEmpty) s' tr := by
  have hjump : ∀ tr, (board allowed depth).Along t i (fun s' _ => Untouched s s') (do jumpe; jumpToBatteryEmpty) s' tr :=
    fun _ => along_sparing (All.bind (All.perform rfl) fun _ => All.perform rfl) h
  by_cases hlow : s'.vars .lowVoltageFlag = 0
  · have hwork : s'.vars .motoWorkFlag ≠ 0 := href.resolve_right fun e => e.1 hlow
    simp [motoCycleSupplied, perform, System.Along, board, exec, Prog.when, hlow, hwork, h]
  · by_cases hdc : 3000 < i.value
    · have hwork : s'.vars .motoWorkFlag ≠ 0 := href.resolve_right fun e => by omega
      simp [motoCycleSupplied, getDcLevel, perform, System.Along, board, exec, Prog.when, hlow, hwork, hdc, h]
    · simpa [motoCycleSupplied, getDcLevel, perform, System.Along, board, exec, hlow, hdc, h] using hjump _

/-- A call that is refused leaves the schedules and the motor alone exactly when neither
schedule has counted an hour. -/
theorem refused_leaves_alone_iff (allowed : Call → Bool) (depth : Nat) (cfg : Conf) (caller : Caller) (i : Input)
    (hidle : cfg.task (requestCall caller).thread = none) (hallowed : allowed (requestCall caller) = true)
    (href : Refused cfg.state i) :
    LeavesAlone (board allowed depth) cfg caller i ↔ ∀ k, cfg.state.vars (.rtcTime k) = 0 := by
  have henabled : (requestCall caller).enabled cfg.state = true := by cases caller <;> rfl
  have hbody : body depth (requestCall caller) = motoCycle caller := by cases caller <;> rfl
  have henter : enter (requestCall caller) cfg.state = cfg.state := by cases caller <;> rfl
  refine (alone_iff depth i (Q := fun s _ => Untouched cfg.state s) hidle hallowed henabled).trans ?_
  rw [hbody, henter]
  have hself : Untouched cfg.state cfg.state := ⟨fun _ => rfl, rfl, rfl⟩
  constructor
  · intro h k
    -- both are cleared by the third operation
    have hthird := h.2.2.2.now.rtcTime k
    cases k <;> simpa [exec, Device.store] using hthird.symm
  · intro hzero
    have hone := untouched_clear .reminder (hzero .reminder) hself
    have htwo := untouched_clear .automatic (hzero .automatic) hone
    refine ⟨hself, hself, hone, along_refused ?_ htwo⟩
    simpa [Refused, exec, Device.store] using href

end

/-- With an empty battery and no supply, and no hour counted. -/
theorem refused_leaves_alone_fresh :
    Refused ((board (fun _ => true) 0).run (start fun _ => 0) (batteryReads 2000)).state {} ∧
    LeavesAlone (board (fun _ => true) 0) ((board (fun _ => true) 0).run (start fun _ => 0) (batteryReads 2000))
      .lcdtoBackwash {} := by
  have href : Refused ((board (fun _ => true) 0).run (start fun _ => 0) (batteryReads 2000)).state {} :=
    .inr ⟨by decide +kernel, by decide⟩
  refine ⟨href, (refused_leaves_alone_iff (fun _ => true) 0 _ .lcdtoBackwash {} ?_ rfl href).mpr fun k => ?_⟩
  · exact Option.isNone_iff_eq_none.mp (by decide +kernel)
  · cases k <;> decide +kernel

/-- An automatic backwash every week, and a week has gone by. -/
def weekGone : Nat → Nat
  | 4 | 6 => 1
  | 17 => 168
  | _ => 0

/-- The backwash is due and is refused for the empty battery: the week is forgotten. -/
theorem refused_forgets_schedule :
    Refused ((board (fun _ => true) 0).run (start weekGone) (batteryReads 2000)).state {} ∧
    ¬ LeavesAlone (board (fun _ => true) 0) ((board (fun _ => true) 0).run (start weekGone) (batteryReads 2000))
      .lcdtoBackwash {} := by
  refine ⟨.inr ⟨by decide +kernel, by decide⟩, fun h => ?_⟩
  have hforgot := (h 12).rtcTime .automatic
  exact absurd hforgot (by decide +kernel)

end Backwash.Motor
