import Backwash.Motor.Bridge

/-! Commands to the motor thread.

Four senders post to `Moto_Event`, and a pass of `Moto_Entry` takes whatever is
pending at once and compares the whole set with each single bit. -/
namespace Backwash.Motor
open Concurrent Prog System Firmware

/-! ### Which commands are executed -/

/-- The motor's present pass has measured a current above the threshold. -/
def overloaded : Trace → Bool
  | [] => false
  | .began t _ :: tr => t != .motor && overloaded tr
  | .did t o i :: tr => (t == .motor && o == .adcRead .moto && decide (i.value > 200)) || overloaded tr

/-- The step is the receive of a pass that has found no overload. -/
def Receives (cfg : Conf) : Act → Prop
  | .step t _ => t = .motor ∧ cfg.head t = some .motoRecv ∧ overloaded cfg.trace = false
  | .start _ _ => False

instance (cfg : Conf) : ∀ a, Decidable (Receives cfg a)
  | .step _ _ => inferInstanceAs (Decidable (_ ∧ _))
  | .start _ _ => isFalse nofun

/-- The commands that move the valve. -/
def moves : List MotoBit := [.forward, .back]

/-- A receive that takes `Forward` or `Back` goes on with its case. -/
def Executes (M : System Res Thread Call Device Input) (cfg : Conf) (a : Act) : Prop :=
  Receives cfg a → ∀ b ∈ moves, cfg.state.moto.has b = true →
    (M.next cfg a).head .motor = some (.mark (.motoCase b))

instance (M : System Res Thread Call Device Input) (cfg : Conf) (a : Act) : Decidable (Executes M cfg a) :=
  inferInstanceAs (Decidable (_ → _))

/-- A receive that takes `Forward` or `Back` takes nothing else with it. -/
def TakesAlone (cfg : Conf) (a : Act) : Prop :=
  Receives cfg a → ∀ b ∈ moves, cfg.state.moto.has b = true → cfg.state.moto = .only b

/-- What a pass does with the set it has received. -/
def motoDispatch (e : MotoBits) : Code Unit := do
  when (e ≠ .empty) (motoSwitch e)
  mdelay 50

/-- The pass from its receive on. -/
def motoReceive : Code Unit := .op .motoRecv motoDispatch

/-- Wherever the motor thread is about to receive, this is what it has left to do. -/
def ReceivesOnce (t : Thread) (_ : Call) (p : Code Unit) : Prop :=
  t = .motor → ∀ k, p = .op .motoRecv k → p = motoReceive

theorem poll_does_not_receive : motoPoll.All (· ≠ .motoRecv) := by
  simp only [motoPoll, motoFreeEventRelease, rightLimit, leftLimit, tdsWork, screenTimerRefresh, jumpa, jumpc,
    getMotoValue, motoOverload, jumpb, countUp, flashSet]
  repeat' first
    | intro _ | with_reducible apply All.bind | with_reducible apply All.when | with_reducible apply All.ite
    | with_reducible exact All.pure _ | exact All.perform (by simp)

theorem dispatch_does_not_receive (e : MotoBits) : (motoDispatch e).All (· ≠ .motoRecv) := by
  simp only [motoDispatch, motoSwitch, motoCaseFree, motoCaseForward, motoCaseBack]
  repeat' first
    | intro _ | with_reducible apply All.bind | with_reducible apply All.when | with_reducible apply All.ite
    | with_reducible exact All.pure _ | exact All.perform (by simp)

theorem motoEntry_receivesOnce : motoEntry.Always (ReceivesOnce .motor .motoEntry) := by
  have hother : ∀ o k, o ≠ .motoRecv → ReceivesOnce .motor .motoEntry (.op o k) := by
    intro o k ho _ k' e
    cases e
    exact absurd rfl ho
  refine Always.bind poll_does_not_receive hother fun _ => ⟨fun _ _ _ => rfl, fun e => ?_⟩
  exact Always.of_all (dispatch_does_not_receive e) (fun _ _ _ => nofun) hother

variable {allowed : Call → Bool} {depth : Nat}

theorem body_receivesOnce (t : Thread) (c : Call) (s : Device) (hr : (board allowed depth).ready t c s = true) :
    ((board allowed depth).body c).Always (ReceivesOnce t c) := by
  by_cases ht : t = .motor
  · subst ht
    have hc : c = .motoEntry := by
      cases c <;> simp_all [board, Call.thread]
    subst hc
    exact motoEntry_receivesOnce
  · exact Always.of_forall (fun _ e => absurd e ht) _

/-- The cases compare the whole set. -/
theorem dispatch_case_iff (e : MotoBits) {b : MotoBit} (hb : b ∈ moves) :
    (motoDispatch e).head = some (.mark (.motoCase b)) ↔ e = .only b := by
  obtain ⟨f, w, k, y⟩ := e
  obtain rfl | rfl : b = .forward ∨ b = .back := by simpa [moves] using hb
  all_goals cases f <;> cases w <;> cases k <;> cases y <;> decide

/-- A receive goes on with what it received. -/
theorem head_after_receive {cfg : Conf} (h : Left ReceivesOnce cfg) (hhead : cfg.head .motor = some .motoRecv)
    (i : Input) : ((board allowed depth).next cfg (.step .motor i)).head .motor = (motoDispatch cfg.state.moto).head := by
  obtain ⟨⟨c, p⟩, htask, hp⟩ := Option.bind_eq_some_iff.mp hhead
  cases p with
  | ret u => cases hp
  | op o k =>
    obtain rfl : o = .motoRecv := Option.some.inj hp
    have hrest : (Prog.op .motoRecv k : Code Unit) = motoReceive := (h _ _ _ htask).1 rfl k rfl
    have hk : k = motoDispatch := eq_of_heq (Prog.op.inj hrest).2
    rw [next_step htask, Config.head, hk]
    simp only [Function.update_self, head_settle]
    rfl

/-- No command is lost, except in a pass that finds an overload, exactly in the
runs in which every other pass that takes `Forward` or `Back` takes it alone. -/
theorem commands_executed_iff (allowed : Call → Bool) (depth : Nat) (flash : Nat → Nat) (as : List Act) :
    (board allowed depth).Admits (Executes (board allowed depth)) (start flash) as ↔
    (board allowed depth).Admits TakesAlone (start flash) as := by
  have hstep : ∀ cfg a, Left ReceivesOnce cfg → Left ReceivesOnce ((board allowed depth).next cfg a) :=
    fun cfg a h => h.next body_receivesOnce a
  refine admits_congr hstep (fun cfg a h => ?_) (Left.boot ReceivesOnce (boot flash)) as
  cases a with
  | start t c => exact ⟨fun _ hr => hr.elim, fun _ hr => hr.elim⟩
  | step t i =>
    refine forall_congr' fun hr => forall_congr' fun b => forall_congr' fun hb => forall_congr' fun _ => ?_
    obtain ⟨rfl, hhead, -⟩ := hr
    rw [head_after_receive h hhead, dispatch_case_iff _ hb]

/-- The timer expires in the 200 ms that the pass at the right limit waits after
posting `Free`: the receive takes `Free` and `Back` together. -/
def backWithFree : List Act := request ++ openPass 8 ++ rightPass 13 ++ expiry ++ turns .motor {} 8

theorem back_lost_with_free :
    ¬ (board motorCalls 0).Admits (Executes (board motorCalls 0)) (start fun _ => 0) backWithFree := by
  decide +kernel

end Backwash.Motor
