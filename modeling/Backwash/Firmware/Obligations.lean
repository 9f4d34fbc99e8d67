import Backwash.Concurrent.Outline
import Backwash.Firmware.Footprint

/-! What a protocol of the board has to show.

A call runs on its own thread only, and most threads cannot touch what a property
is about: for them the table of `Footprint` is enough, and what is left are the
few calls that matter. -/
namespace Backwash.Firmware
open Concurrent Prog Protocol System

/-- The last operation a thread performed in its present call. -/
def lastOp (t : Thread) : Trace → Option Op
  | [] => none
  | .began u _ :: tr => if u = t then none else lastOp t tr
  | .did u o _ :: tr => if u = t then some o else lastOp t tr

@[simp] theorem lastOp_did_self (t : Thread) (o : Op) (i : Input) (tr : Trace) :
    lastOp t (.did t o i :: tr) = some o := if_pos rfl

theorem lastOp_did_of_ne {t u : Thread} (h : u ≠ t) (o : Op) (i : Input) (tr : Trace) :
    lastOp t (.did u o i :: tr) = lastOp t tr := if_neg h

theorem lastOp_began_of_ne {t u : Thread} (h : u ≠ t) (c : Call) (tr : Trace) :
    lastOp t (.began u c :: tr) = lastOp t tr := if_neg h

/-! ### What the beginning of a call leaves alone -/

/-- A part of the state that neither a timer's expiry nor an interrupt touches. -/
theorem enter_keep {β : Type} {f : Device → β} {c : Call} (hx : ∀ x s, c = .expire x → f (s.stopTimer x) = f s)
    (hj : ∀ s n, f {s with semJump := n} = f s) (ht : ∀ s n, f {s with tick := n} = f s)
    (hirq : ∀ o s, may .irq o = true → f (exec .irq o {} s).1 = f s) (s : Device) : f (enter c s) = f s := by
  rcases enter_cases c s with h | ⟨x, hc, h⟩ | ⟨-, h⟩ | ⟨n, -, h⟩ | ⟨-, p, hp, h⟩
  · rw [h]
  · rw [h, hx x s hc]
  · rw [h, hj]
  · rw [h, ht]
  · rw [h]
    exact atomically_keep (hp.mono fun o ho s => hirq o s ho) s

theorem enter_pins (c : Call) (s : Device) : (enter c s).pins = s.pins := by
  refine enter_keep (f := Device.pins) (fun _ _ _ => rfl) (fun _ _ => rfl) (fun _ _ => rfl) (fun o s ho => ?_) s
  rcases irq_cases ho with ⟨_, rfl⟩ | ⟨_, rfl⟩ | ⟨_, _, rfl⟩ | ⟨_, rfl⟩ | rfl <;> rfl

theorem enter_jump (c : Call) (s : Device) : (enter c s).jump = s.jump := by
  refine enter_keep (f := Device.jump) (fun _ _ _ => rfl) (fun _ _ => rfl) (fun _ _ => rfl) (fun o s ho => ?_) s
  rcases irq_cases ho with ⟨_, rfl⟩ | ⟨_, rfl⟩ | ⟨_, _, rfl⟩ | ⟨_, rfl⟩ | rfl <;> rfl

theorem enter_wins (c : Call) (s : Device) : (enter c s).wins = s.wins := by
  refine enter_keep (f := Device.wins) (fun _ _ _ => rfl) (fun _ _ => rfl) (fun _ _ => rfl) (fun o s ho => ?_) s
  rcases irq_cases ho with ⟨_, rfl⟩ | ⟨_, rfl⟩ | ⟨_, _, rfl⟩ | ⟨_, rfl⟩ | rfl <;> rfl

theorem enter_timer {c : Call} {x : Timer} (hc : c ≠ .expire x) (s : Device) : (enter c s).timer x = s.timer x := by
  refine enter_keep (f := fun s => s.timer x) (fun y s hy => ?_) (fun _ _ => rfl) (fun _ _ => rfl)
    (fun o s ho => ?_) s
  · have hxy : x ≠ y := fun e => hc (by rw [hy, e])
    simp [Device.stopTimer, Device.setTimer, hxy]
  · rcases irq_cases ho with ⟨_, rfl⟩ | ⟨_, rfl⟩ | ⟨_, _, rfl⟩ | ⟨_, rfl⟩ | rfl <;> rfl

theorem enter_sem {k : Sem} (hk : k ≠ .rtcCheck) (c : Call) (s : Device) : (enter c s).sem k = s.sem k := by
  refine enter_keep (f := fun s => s.sem k) (fun _ _ _ => rfl) (fun _ _ => rfl) (fun _ _ => rfl) (fun o s ho => ?_) s
  rcases irq_cases ho with ⟨_, rfl⟩ | ⟨_, rfl⟩ | ⟨_, _, rfl⟩ | ⟨_, rfl⟩ | rfl <;> first | rfl | simp [exec, hk]

theorem enter_taken (c : Call) (s : Device) : (enter c s).taken = s.taken := by
  refine enter_keep (f := Device.taken) (fun _ _ _ => rfl) (fun _ _ => rfl) (fun _ _ => rfl) (fun o s ho => ?_) s
  rcases irq_cases ho with ⟨_, rfl⟩ | ⟨_, rfl⟩ | ⟨_, _, rfl⟩ | ⟨_, rfl⟩ | rfl <;> rfl

theorem enter_flash (c : Call) (s : Device) : (enter c s).flash = s.flash := by
  refine enter_keep (f := Device.flash) (fun _ _ _ => rfl) (fun _ _ => rfl) (fun _ _ => rfl) (fun o s ho => ?_) s
  rcases irq_cases ho with ⟨_, rfl⟩ | ⟨_, rfl⟩ | ⟨_, _, rfl⟩ | ⟨_, rfl⟩ | rfl <;> rfl

/-- A variable that no interrupt writes. -/
theorem enter_vars {v : Var} (hr : ∀ k, v ≠ .rtcTime k) (hd : v ≠ .deltaPressWorkFlag) (c : Call) (s : Device) :
    (enter c s).vars v = s.vars v := by
  refine enter_keep (f := fun s => s.vars v) (fun _ _ _ => rfl) (fun _ _ => rfl) (fun _ _ => rfl) (fun o s ho => ?_) s
  rcases irq_cases ho with ⟨_, rfl⟩ | ⟨_, rfl⟩ | ⟨k, _, rfl⟩ | ⟨_, rfl⟩ | rfl
  · rfl
  · rfl
  · simp [exec, Device.store, hr k]
  · simp [exec, Device.store, hd]
  · rfl

theorem enter_motoWorkFlag (c : Call) (s : Device) : (enter c s).vars .motoWorkFlag = s.vars .motoWorkFlag :=
  enter_vars (fun _ => by simp) (by decide) c s

/-! ### The start -/

theorem boot_pins (flash : Nat → Nat) : (boot flash).pins = (powerOn flash).pins := by
  refine boot_keep (f := Device.pins) (fun o s ho => ?_) flash
  cases o <;> first | rfl | cases ho

theorem boot_moto (flash : Nat → Nat) : (boot flash).moto = .empty := by
  refine boot_keep (f := Device.moto) (fun o s ho => ?_) flash
  cases o <;> first | rfl | cases ho

theorem boot_timer (flash : Nat → Nat) : (boot flash).timer = (powerOn flash).timer := by
  refine boot_keep (f := Device.timer) (fun o s ho => ?_) flash
  cases o <;> first | rfl | cases ho

theorem boot_sem (flash : Nat → Nat) (k : Sem) : (boot flash).sem k = [] := by
  refine boot_keep (f := fun s => s.sem k) (fun o s ho => ?_) flash
  cases o <;> first | rfl | cases ho

theorem boot_flash (flash : Nat → Nat) {id : Nat} (h : id ≠ 13) (h' : id ≠ 14) : (boot flash).flash id = flash id := by
  refine boot_keep (f := fun s => s.flash id) (fun o s ho => exec_flash (fun n e => ?_) _) flash
  subst e
  simp [bootMay, h, h'] at ho

/-- A variable that is not loaded from the store starts as RAM does. -/
theorem boot_vars {v : Var} (h : ∀ n, bootMay (.store v n) = false) (hf : ∀ w, v ≠ .firstFlag w)
    (hw : v ≠ .buttonWakeupFlag) (flash : Nat → Nat) : (boot flash).vars v = (powerOn flash).vars v := by
  refine boot_keep (f := fun s => s.vars v) (fun o s ho => exec_vars (fun n e => ?_) hf hw _) flash
  rw [e, h n] at ho
  cases ho

theorem boot_motoWorkFlag (flash : Nat → Nat) : (boot flash).vars .motoWorkFlag = 0 :=
  boot_vars (fun _ => rfl) (fun _ => by simp) (by decide) flash

theorem boot_jump (flash : Nat → Nat) : (boot flash).jump = .empty := by
  refine boot_keep (f := Device.jump) (fun o s ho => ?_) flash
  cases o <;> first | rfl | cases ho

/-- The entry a variable is loaded from, where the start does no more than load it. -/
def loadedFrom : Var → Option Nat
  | .week .reminder => some 1
  | .day .reminder => some 2
  | .enable .reminder => some 3
  | .week .automatic => some 4
  | .day .automatic => some 5
  | .enable .automatic => some 6
  | .deltapressEnable => some 7
  | .counter .manual => some 8
  | .counter .automatic => some 9
  | .counter .deltapress => some 10
  | .counter .error => some 11
  | .settingDeltapress => some 12
  | .rtcTime .reminder => some 16
  | .rtcTime .automatic => some 17
  | _ => none

theorem boot_loaded {v : Var} {id : Nat} (h : loadedFrom v = some id) (flash : Nat → Nat) :
    (boot flash).vars v = flash id % 2 ^ v.width := by
  have hkeep (u : Var) (n : Nat) (hu : loadedFrom u = none) (s : Device) :
      (exec .lcd (.store u n) {} s).1.vars v = s.vars v := by
    have hne : v ≠ u := fun e => by rw [e, hu] at h; cases h
    simp [exec, Device.store, hne]
  simp only [boot, gotValue, rtcInit, flashGet, perform, atomically, exec, bind_eq, op_bind, ret_bind, pure_eq]
  -- the tests of the two numbers and the load of the language come after all others
  refine (atomically_keep (f := fun s => s.vars v) ?_ _).trans ?_
  · simp only [flashSet, perform, bind_eq, op_bind]
    refine All.bind (All.when ?_) fun _ => ⟨fun _ => rfl, fun _ => ⟨fun _ => rfl, fun _ => ⟨hkeep _ _ rfl, fun _ =>
      ⟨fun _ => rfl, fun _ => All.bind (All.when ?_) fun _ => ?_⟩⟩⟩⟩
    all_goals repeat' first | exact All.ret _ | refine ⟨fun _ => rfl, fun _ => ?_⟩ | refine ⟨hkeep _ _ rfl, fun _ => ?_⟩
  · unfold loadedFrom at h
    split at h <;> cases h
    all_goals simp [Device.store, Var.width, powerOn]

/-! ### Widths -/

theorem atomically_invariant {Q : Device → Prop} {t : Thread} (h : ∀ o s, Q s → Q (exec t o {} s).1) (p : Code Unit)
    {s : Device} (hs : Q s) : Q (atomically t p s) := by
  induction p generalizing s with
  | ret a => exact hs
  | op o k ih => exact ih _ (h o s hs)

/-- The variables keep to their widths. -/
def Bounded (s : Device) : Prop := ∀ u, s.vars u < 2 ^ u.width

theorem Bounded.store {s : Device} (h : Bounded s) (v : Var) (n : Nat) : Bounded (s.store v n) := by
  intro u
  by_cases hu : u = v
  · subst hu
    simpa [Device.store] using Nat.mod_lt n (Nat.two_pow_pos _)
  · simpa [Device.store, hu] using h u

theorem Bounded.exec {t : Thread} {o : Op} {i : Input} {s : Device} (h : Bounded s) : Bounded (exec t o i s).1 := by
  cases o with
  | store v n => exact h.store v n
  | memsetFirstFlag =>
    intro u
    simp only [Firmware.exec, Device.clearFirstFlag]
    split
    · exact h _
    · exact Nat.two_pow_pos _
    · exact h _
  | stop2 =>
    simp only [Firmware.exec]
    split
    · exact h.store _ _
    · exact h
  | _ => exact h

theorem Bounded.enter {s : Device} (h : Bounded s) (c : Call) : Bounded (enter c s) := by
  rcases enter_cases c s with e | ⟨x, -, e⟩ | ⟨-, e⟩ | ⟨n, -, e⟩ | ⟨-, p, -, e⟩
  · rw [e]
    exact h
  · rw [e]
    exact h
  · rw [e]
    exact h
  · rw [e]
    exact h
  · rw [e]
    exact atomically_invariant (fun _ _ hs => hs.exec) p h

theorem boot_bounded (flash : Nat → Nat) : Bounded (boot flash) := by
  have hpower : Bounded (powerOn flash) := by
    intro u
    cases u <;> first | exact Nat.two_pow_pos _ | exact (by decide : 1 < 2 ^ 8)
  exact atomically_invariant (fun _ _ hs => hs.exec) gotValue (atomically_invariant (fun _ _ hs => hs.exec) rtcInit hpower)

theorem Bounded.next {allowed : Call → Bool} {depth : Nat} {cfg : Conf} (h : Bounded cfg.state) (a : Act) :
    Bounded ((board allowed depth).next cfg a).state := by
  rcases System.next_cases (M := board allowed depth) cfg a with hsame | ⟨t, c, rfl, ht, hready⟩ | ⟨t, i, c, o, k, rfl, ht⟩
  · rw [hsame]
    exact h
  · rw [System.next_start ht hready]
    exact h.enter c
  · rw [System.next_step ht]
    exact h.exec

theorem run_bounded (allowed : Call → Bool) (depth : Nat) (flash : Nat → Nat) (as : List Act) :
    Bounded ((board allowed depth).run (start flash) as).state := by
  have hstart : Bounded (start flash).state := by
    simp only [start, Config.boot]
    exact boot_bounded flash
  exact run_invariant (fun cfg => Bounded cfg.state) (fun _ a h _ => Bounded.next h a) hstart (System.admits_true _ as)

/-! ### Calls one by one -/

/-- A call run on its thread without interruption, for `n` operations. -/
def alone (c : Call) (i : Input) (n : Nat) : List Act := .start c.thread c :: turns c.thread i n

/-- What holds all the while a call runs without interruption. -/
theorem alone_iff {allowed : Call → Bool} (depth : Nat) {c : Call} (i : Input) {cfg : Conf}
    {Q : Device → Trace → Prop} (hidle : cfg.task c.thread = none) (hallowed : allowed c = true)
    (henabled : c.enabled cfg.state = true) :
    (∀ n, Q ((board allowed depth).run cfg (alone c i n)).state ((board allowed depth).run cfg (alone c i n)).trace) ↔
      (board allowed depth).Along c.thread i Q (body depth c) (enter c cfg.state) (.began c.thread c :: cfg.trace) := by
  have hready : (board allowed depth).ready c.thread c cfg.state = true := by
    simp [board, hallowed, henabled]
  rw [← System.along_iff (c := c)]
  refine forall_congr' fun n => ?_
  simp only [alone, turns, System.run]
  rw [System.next_start hidle hready]
  rfl

/-- A call that is ready keeps to what its thread may do. -/
theorem ready_may {allowed : Call → Bool} {depth : Nat} {t : Thread} {c : Call} {s : Device}
    (hready : (board allowed depth).ready t c s = true) :
    ((board allowed depth).body c).All fun o => may t o = true := by
  have hr : (t = c.thread ∧ allowed c = true) ∧ c.enabled s = true := by simpa [board] using hready
  obtain ⟨⟨rfl, -⟩, -⟩ := hr
  exact body_may depth c

/-- What a thread has left to do keeps to the table. -/
theorem body_heads {allowed : Call → Bool} {depth : Nat} (t : Thread) (c : Call) (s : Device)
    (hready : (board allowed depth).ready t c s = true) :
    ((board allowed depth).body c).Always fun p => ∀ o, p.head = some o → may t o = true := by
  refine Always.of_all (ready_may hready) (fun _ => nofun) fun o k ho o' e => ?_
  cases e
  exact ho

/-- What a busy thread has left to do in a run keeps to what the thread may do. -/
theorem run_may (allowed : Call → Bool) (depth : Nat) (flash : Nat → Nat) (as : List Act) {t : Thread} {c : Call}
    {p : Code Unit} (h : ((board allowed depth).run (start flash) as).task t = some (c, p)) :
    p.All fun o => may t o = true := by
  have hleft : Left (fun t _ p => ∀ o, p.head = some o → may t o = true) ((board allowed depth).run (start flash) as) :=
    run_invariant _ (fun _ a h _ => h.next body_heads a) (Left.boot _ _) (System.admits_true _ as)
  exact (hleft t c p h).all

theorem head_may {cfg : Conf} {t : Thread} {o : Op} (h : Left (fun t _ p => ∀ o, p.head = some o → may t o = true) cfg)
    (ho : cfg.head t = some o) : may t o = true := by
  obtain ⟨⟨c, p⟩, htask, hp⟩ := Option.bind_eq_some_iff.mp ho
  have hall := h t c p htask
  cases p with
  | ret a => cases hp
  | op o' k => exact hall.1 o hp

section
variable {allowed : Call → Bool} {depth : Nat} {G : Type} {P : Protocol (board allowed depth) G}

/-- A call begins on its own thread, and only while it is allowed. -/
theorem begins_board (h : ∀ c, allowed c = true → P.Begins c.thread c) (t : Thread) (c : Call) :
    P.Begins t c := by
  intro cfg gs hidle hready
  have hr : (t = c.thread ∧ allowed c = true) ∧ c.enabled cfg.state = true := by
    simpa [board] using hready
  obtain ⟨⟨rfl, hc⟩, -⟩ := hr
  exact h c hc cfg gs hidle hready

/-- A call that its thread begins with mark `g`. -/
theorem begins_outline {c : Call} {g : G} (hidle : ∀ x, P.At c.thread none x → x = g)
    (hat : P.At c.thread (some c) g)
    (henter : ∀ cfg gs, P.Holds gs cfg → P.Rule cfg (.start c.thread c) → gs c.thread = g →
      c.enabled cfg.state = true → P.Inv gs (enter c cfg.state) (.began c.thread c :: cfg.trace))
    (hout : P.Outline c.thread c (body depth c) g fun _ g' => P.At c.thread none g') :
    P.Begins c.thread c := by
  intro cfg gs hnone hready hold hrule
  have hg : gs c.thread = g := by
    refine hidle _ ?_
    have := hold.2 c.thread
    rwa [show cfg.call c.thread = none by simp [Config.call, hnone]] at this
  have hen : c.enabled cfg.state = true := by
    simp only [board, Bool.and_eq_true] at hready
    exact hready.2
  refine ⟨g, hat, ?_, hout⟩
  rw [← hg, Function.update_eq_self]
  exact henter cfg gs hold hrule hg hen

/-- A call of a thread that carries one mark for good, and whose operations all
leave the invariant true. -/
theorem begins_quiet {c : Call} {g : G} (hidle : ∀ x, P.At c.thread none x → x = g)
    (hat : ∀ x, P.At c.thread x g)
    (henter : ∀ cfg gs, P.Holds gs cfg → P.Rule cfg (.start c.thread c) → gs c.thread = g →
      c.enabled cfg.state = true → P.Inv gs (enter c cfg.state) (.began c.thread c :: cfg.trace))
    (hop : ∀ o, may c.thread o = true → P.Keeps c.thread c g o) : P.Begins c.thread c :=
  begins_outline hidle (hat _) henter
    (Outline.keep (hat _) ((body_may depth c).mono hop) fun _ => hat _)

end

end Backwash.Firmware
