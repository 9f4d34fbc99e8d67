import Backwash.Concurrent.Owner
import Backwash.Motor.Cycle

/-! A request while a backwash is in progress.

`Moto_Cycle` tells a running backwash by `MotoWorkFlag`. The flag follows the valve
and not the backwash: between two passes it is 1 in forward travel, 2 in return
travel and 0 otherwise. A backwash also waits, for its first pass and in the dwell
at the right limit, and then a request is accepted again. -/
namespace Backwash.Motor
open Concurrent Prog Protocol Firmware

/-! ### Where the valve is -/

inductive Travel where
  | rest | forward | back
  deriving DecidableEq

/-- The value of `MotoWorkFlag` that goes with it. -/
def Travel.code : Travel → Nat
  | .rest => 0
  | .forward => 1
  | .back => 2

/-- The travel that the motor thread has begun and not ended, and the case of its
switch that has yet to read its limit switch. -/
structure Course where
  travel : Travel := .rest
  due : Option MotoBit := none
  deriving DecidableEq

/-- A travel begins with its case, which for the way back must find the left switch
open. It ends when a pass reads the switch ahead closed or an overload, or with `Free`. -/
def Course.after (x : Course) : Op → Input → Course
  | .mark (.motoCase .forward), _ => ⟨.forward, some .forward⟩
  | .mark (.motoCase .free), _ => ⟨.rest, some .free⟩
  | .mark (.motoCase b), _ => {x with due := some b}
  | .pinRead .motoLeft, i =>
    if x.due = some .back then ⟨if i.level then .back else x.travel, none⟩
    else if x.travel = .back ∧ i.level = false then {x with travel := .rest} else x
  | .pinRead .motoRight, i =>
    if x.due = some .forward then {x with due := none}
    else if x.travel = .forward ∧ i.level = false then {x with travel := .rest} else x
  | .adcRead .moto, i => if i.value > 200 then {x with travel := .rest} else x
  | _, _ => x

def course : Trace → Course
  | [] => {}
  | .began t _ :: tr => if t = .motor then {course tr with due := none} else course tr
  | .did t o i :: tr => if t = .motor then (course tr).after o i else course tr

/-! ### The property -/

/-- The display thread is in a call of `Moto_Cycle`, or past one, that it entered
with a backwash in progress. -/
def late : Trace → Bool
  | [] => false
  | .began t _ :: tr => t != .lcd && late tr
  | .did .lcd (.mark (.motoCycle _)) _ :: tr => inProgress tr
  | _ :: tr => late tr

/-- The operation posts to `Moto_Event` or moves the expiry of `Moto_Cycle_Timer`. -/
def touches : Op → Bool
  | .motoSend _ | .timerStart .motoCycle | .timerStop .motoCycle => true
  | _ => false

/-- No such call has done either. -/
def undisturbed : Trace → Bool
  | [] => true
  | .began _ _ :: tr => undisturbed tr
  | .did t o _ :: tr => !(t == .lcd && touches o && late tr) && undisturbed tr

/-- A call entered with a backwash in progress looks at `MotoWorkFlag` between two
passes of the motor thread, in forward or return travel. -/
def RequestRule (cfg : Conf) : Act → Prop
  | .start _ _ => True
  | .step t _ => t = .lcd ∧ cfg.head t = some (.load .motoWorkFlag) ∧ late cfg.trace = true →
    (cfg.task .motor).isNone = true ∧ (course cfg.trace).travel ≠ .rest

instance (cfg : Conf) : ∀ a, Decidable (RequestRule cfg a)
  | .start _ _ => inferInstanceAs (Decidable True)
  | .step _ _ => inferInstanceAs (Decidable (_ → _))

/-- All else leaves the posts and the expiry as they are. -/
theorem exec_of_not_touches {o : Op} (hr : o ≠ .motoRecv) (ho : touches o = false) (t : Thread) (i : Input) (s : Device) :
    (exec t o i s).1.moto = s.moto ∧ ((exec t o i s).1.timer .motoCycle).timeout = (s.timer .motoCycle).timeout := by
  refine ⟨exec_moto (fun b e => by rw [e] at ho; cases ho) hr i, ?_⟩
  by_cases hc : ∃ n, o = .timerControl .motoCycle n
  · obtain ⟨n, rfl⟩ := hc
    simp [exec, Device.setTimer]
  · rw [exec_timer (fun e => by rw [e] at ho; cases ho) (fun e => by rw [e] at ho; cases ho) fun n e => hc ⟨n, e⟩]

/-! ### The flag between two passes -/

/-- What the motor thread knows: the variables that are its own, and the course. -/
structure Flag where
  work : Nat
  leftStatus : Nat
  rightStatus : Nat
  course : Course

namespace Flag

def after : (o : Op) → Res o → Flag → Flag
  | .store .motoWorkFlag n, _, x => {x with work := n % 2 ^ 8}
  | .store .leftStatus n, _, x => {x with leftStatus := n % 2 ^ 8}
  | .store .rightStatus n, _, x => {x with rightStatus := n % 2 ^ 8}
  | .mark m, _, x => {x with course := x.course.after (.mark m) {}}
  | .pinRead p, r, x => {x with course := x.course.after (.pinRead p) ⟨r, 0⟩}
  | .adcRead c, r, x => {x with course := x.course.after (.adcRead c) ⟨false, r⟩}
  | _, _, x => x

def can : (o : Op) → Flag → Res o → Prop
  | .load .motoWorkFlag, x, r => r = x.work
  | .load .leftStatus, x, r => r = x.leftStatus
  | .load .rightStatus, x, r => r = x.rightStatus
  | _, _, _ => True

/-- The flag says where the valve is. -/
def Told (x : Flag) : Prop := x.work = x.course.travel.code

structure Sees (x : Flag) (s : Device) (tr : Trace) : Prop where
  work : s.vars .motoWorkFlag = x.work
  leftStatus : s.vars .leftStatus = x.leftStatus
  rightStatus : s.vars .rightStatus = x.rightStatus
  course : Motor.course tr = x.course

def first (x : Flag) : Flag := {x with course.due := none}

section
variable {t : Thread} {o : Op} {i : Input} {s : Device} {tr : Trace} {x : Flag}

theorem Sees.vars (h : Sees x s tr) {s' : Device} {tr' : Trace}
    (hs : ∀ v, v = .motoWorkFlag ∨ v = .leftStatus ∨ v = .rightStatus → s'.vars v = s.vars v)
    (hc : Motor.course tr' = Motor.course tr) : Sees x s' tr' :=
  ⟨(hs _ (.inl rfl)).trans h.work, (hs _ (.inr (.inl rfl))).trans h.leftStatus,
    (hs _ (.inr (.inr rfl))).trans h.rightStatus, hc.trans h.course⟩

/-- The other threads do not write the motor's variables. -/
theorem Sees.other (h : Sees x s tr) (ht : t ≠ .motor) (hmay : may t o = true) :
    Sees x (exec t o i s).1 (.did t o i :: tr) := by
  refine h.vars (fun v hv => ?_) (by simp [Motor.course, ht])
  refine exec_vars (fun n e => ?_) (fun w => by rcases hv with rfl | rfl | rfl <;> simp)
    (by rcases hv with rfl | rfl | rfl <;> decide) i
  subst e
  rcases hv with rfl | rfl | rfl <;> (cases t <;> first | exact absurd rfl ht | cases hmay)

theorem Sees.began (h : Sees x s tr) {c : Call} (ht : t ≠ .motor) : Sees x (enter c s) (.began t c :: tr) :=
  h.vars (fun v hv => enter_vars (fun _ => by rcases hv with rfl | rfl | rfl <;> simp)
    (by rcases hv with rfl | rfl | rfl <;> decide) c s) (by simp [Motor.course, ht])

theorem Sees.begin (h : Sees x s tr) (c : Call) : Sees x.first (enter c s) (.began .motor c :: tr) := by
  have hvars : ∀ v, v = .motoWorkFlag ∨ v = .leftStatus ∨ v = .rightStatus → (enter c s).vars v = s.vars v := fun v hv =>
    enter_vars (fun _ => by rcases hv with rfl | rfl | rfl <;> simp) (by rcases hv with rfl | rfl | rfl <;> decide) c s
  refine ⟨(hvars _ (.inl rfl)).trans h.work, (hvars _ (.inr (.inl rfl))).trans h.leftStatus,
    (hvars _ (.inr (.inr rfl))).trans h.rightStatus, ?_⟩
  simp [Motor.course, first, h.course]

/-- The operation is none of those that the thread keeps account of. -/
def aside : Op → Bool
  | .store v _ => v != .motoWorkFlag && v != .leftStatus && v != .rightStatus
  | .mark _ | .pinRead _ => false
  | .adcRead c => c != .moto
  | _ => true

theorem after_aside (h : aside o = true) (r : Res o) (x : Flag) : x.after o r = x := by
  cases o with
  | store v n => cases v <;> first | rfl | cases h
  | mark m => cases h
  | pinRead p => cases h
  | adcRead c => cases c <;> first | rfl | cases h
  | _ => rfl

theorem course_aside (h : aside o = true) (x : Course) : x.after o i = x := by
  cases o with
  | mark m => cases h
  | pinRead p => cases h
  | adcRead c => cases c <;> first | rfl | cases h
  | _ => rfl

theorem Sees.own (h : Sees x s tr) :
    Sees (x.after o (exec .motor o i s).2) (exec .motor o i s).1 (.did .motor o i :: tr) := by
  by_cases ho : aside o = true
  · rw [after_aside ho]
    refine h.vars (fun v hv => ?_) (by simp [Motor.course, course_aside ho])
    refine exec_vars (fun n e => ?_) (fun w => by rcases hv with rfl | rfl | rfl <;> simp)
      (by rcases hv with rfl | rfl | rfl <;> decide) i
    subst e
    rcases hv with rfl | rfl | rfl <;> cases ho
  cases o with
  | store v n =>
    have hv : v = .motoWorkFlag ∨ v = .leftStatus ∨ v = .rightStatus := by
      simpa [aside, or_iff_not_imp_left, and_imp] using ho
    have hc : Motor.course (.did .motor (.store v n) i :: tr) = x.course := by
      simp [Motor.course, Course.after, h.course]
    rcases hv with rfl | rfl | rfl
    · exact ⟨rfl, h.leftStatus, h.rightStatus, hc⟩
    · exact ⟨h.work, rfl, h.rightStatus, hc⟩
    · exact ⟨h.work, h.leftStatus, rfl, hc⟩
  | mark m =>
    refine ⟨h.work, h.leftStatus, h.rightStatus, ?_⟩
    simp only [Motor.course, if_true, h.course, after]
    cases m with
    | motoCase b => cases b <;> rfl
    | _ => rfl
  | pinRead p =>
    refine ⟨h.work, h.leftStatus, h.rightStatus, ?_⟩
    simp only [Motor.course, if_true, h.course, after]
    cases p <;> rfl
  | adcRead c =>
    refine ⟨h.work, h.leftStatus, h.rightStatus, ?_⟩
    simp only [Motor.course, if_true, h.course, after]
    cases c <;> rfl
  | _ => exact absurd rfl ho

theorem Sees.can (h : Sees x s tr) : x.can o (exec .motor o i s).2 := by
  cases o with
  | load v => cases v <;> first | exact trivial | exact h.work | exact h.leftStatus | exact h.rightStatus
  | _ => exact trivial

end

end Flag

variable {allowed : Call → Bool} {depth : Nat}

/-- The motor thread and its flag. -/
def flag (allowed : Call → Bool) (depth : Nat) : Owner (board allowed depth) Flag where
  can := Flag.can
  after := Flag.after
  Safe := fun _ => True
  thread := .motor
  may := fun t o => may t o = true
  Rule := fun _ _ => True
  Sees := Flag.Sees
  Rest := Flag.Told
  first := fun _ => Flag.first
  body_may := @ready_may allowed depth
  own := fun _ _ _ hsees => ⟨hsees.can, hsees.own⟩
  other := fun ht hmay _ _ hsees => hsees.other ht hmay
  begins := fun _ _ _ _ hsees => ⟨trivial, hsees.begin _⟩
  begins_other := fun ht _ _ hsees => hsees.began ht

/-! ### A pass -/

section
variable {x : Flag} {α β : Type}

theorem run_beside {p : Code α} (hp : p.All fun o => Flag.aside o = true) :
    (flag allowed depth).Run p x fun _ y => y = x :=
  Sight.Run.all (D := fun y => y = x)
    (hp.mono fun _ ho y r hy _ => ⟨trivial, (Flag.after_aside ho r y).trans hy⟩) rfl

theorem run_past {o : Op} {f : Res o → Code β} {Q : β → Flag → Prop} (ho : Flag.aside o = true)
    (hf : ∀ r, x.can o r → (flag allowed depth).Run (f r) x Q) : (flag allowed depth).Run (perform o >>= f) x Q := by
  refine Sight.Run.step fun r hr => ⟨trivial, ?_⟩
  show (flag allowed depth).Run (f r) (x.after o r) Q
  rw [Flag.after_aside ho]
  exact hf r hr

theorem run_clear {p : Code β} {Q : β → Flag → Prop} (hp : (flag allowed depth).Run p {x with work := 0} Q) :
    (flag allowed depth).Run (do
      pinWrite .motoIn1 false
      pinWrite .motoIn2 false
      store .motoWorkFlag 0
      p) x Q :=
  run_past rfl fun _ _ => run_past rfl fun _ _ => Sight.Run.step fun _ _ => ⟨trivial, hp⟩

theorem run_rightLimit_flag : (flag allowed depth).Run rightLimit x fun _ y => y = {x with work := 0} := by
  refine run_past rfl fun _ _ => run_clear (run_beside ?_)
  exact All.bind (all_tdsWork rfl rfl rfl) fun _ => All.bind (All.perform rfl) fun _ =>
    All.bind (all_tdsWork rfl rfl rfl) fun _ => All.pure _

theorem run_leftLimit_flag : (flag allowed depth).Run leftLimit x fun _ y => y = {x with work := 0} := by
  refine run_clear (run_beside ?_)
  exact All.bind (all_screenTimerRefresh rfl rfl) fun _ => All.bind (All.perform rfl) fun _ =>
    All.bind (All.perform rfl) fun _ => All.ite (All.perform rfl) (All.perform rfl)

/-- The travel that is left once a pass has read both switches. -/
def Travel.polled (left right : Bool) : Travel → Travel
  | .rest => .rest
  | .forward => if right = true then .forward else .rest
  | .back => if left = true then .back else .rest

theorem run_pollSwitches {p : Code β} {Q : β → Flag → Prop} (hd : x.course.due = none)
    (hp : ∀ left right, (flag allowed depth).Run p
      ⟨x.work, left.toNat, right.toNat, ⟨x.course.travel.polled left right, none⟩⟩ Q) :
    (flag allowed depth).Run (do
      let left ← pinRead .motoLeft
      store .leftStatus left.toNat
      let right ← pinRead .motoRight
      store .rightStatus right.toNat
      p) x Q := by
  refine Sight.Run.step fun (left : Bool) _ => ⟨trivial, Sight.Run.step fun _ _ => ⟨trivial, ?_⟩⟩
  refine Sight.Run.step fun (right : Bool) _ => ⟨trivial, Sight.Run.step fun _ _ => ⟨trivial, ?_⟩⟩
  have hend := hp left right
  obtain ⟨work, leftStatus, rightStatus, ⟨travel, due⟩⟩ := x
  obtain rfl : due = none := hd
  cases travel <;> cases left <;> cases right <;> exact hend

/-- A limit reached ends the travel and clears the flag. -/
theorem run_release_flag (h : x.Told) (hd : x.course.due = none) :
    (flag allowed depth).Run motoFreeEventRelease x fun _ y => y.Told ∧ y.course.due = none := by
  refine run_pollSwitches hd fun left right => run_past rfl fun (r : Nat) hr => run_past rfl fun (f : Nat) hf => ?_
  obtain rfl : r = right.toNat := hr
  obtain rfl : f = x.course.travel.code := Eq.trans hf h
  -- each limit clears the flag for its own direction only
  have hright : (flag allowed depth).Run (when (right.toNat = 0 ∧ x.course.travel.code = 1) rightLimit)
      ⟨x.work, left.toNat, right.toNat, ⟨x.course.travel.polled left right, none⟩⟩ fun _ y =>
        y = ⟨if right.toNat = 0 ∧ x.course.travel.code = 1 then 0 else x.course.travel.code, left.toNat, right.toNat,
          ⟨x.course.travel.polled left right, none⟩⟩ := by
    refine Sight.Run.when (fun hc => ?_) fun hc => ?_
    · rw [if_pos hc]
      exact run_rightLimit_flag
    · rw [if_neg hc, show x.work = x.course.travel.code from h]
  refine Sight.Run.bind hright fun _ y hy => ?_
  subst hy
  refine run_past rfl fun (l : Nat) hl => run_past rfl fun (f : Nat) hf => ?_
  obtain rfl : l = left.toNat := hl
  have hf' : f = if right.toNat = 0 ∧ x.course.travel.code = 1 then 0 else x.course.travel.code := hf
  refine Sight.Run.when (fun hc => run_leftLimit_flag.mono fun _ y hy => ?_) fun hc => ⟨?_, rfl⟩
  · subst hy
    refine ⟨?_, rfl⟩
    show 0 = Travel.code _
    revert hf' hc
    cases x.course.travel <;> cases left <;> cases right <;> simp +contextual [Travel.polled, Travel.code]
  · show (if right.toNat = 0 ∧ x.course.travel.code = 1 then 0 else x.course.travel.code) = Travel.code _
    revert hf' hc
    cases x.course.travel <;> cases left <;> cases right <;> simp +contextual [Travel.polled, Travel.code]

theorem run_motoPoll_flag (h : x.Told) (hd : x.course.due = none) :
    (flag allowed depth).Run motoPoll x fun _ y => y.Told := by
  refine run_past rfl fun (w : Nat) _ => Sight.Run.when (fun _ => ?_) fun _ => h
  refine Sight.Run.bind (run_release_flag h hd) fun _ y hy => ?_
  refine Sight.Run.step fun (v : Nat) _ => ⟨trivial, Sight.Run.when (fun hv => ?_) fun hv => ?_⟩
  · refine run_clear (run_beside ?_ |>.mono fun _ z hz => ?_)
    · exact All.bind (All.bind (all_countUp rfl (fun _ => rfl) fun _ => all_flashSet rfl rfl rfl) fun _ => All.perform rfl)
        fun _ => All.bind (All.perform rfl) fun _ => All.bind (All.perform rfl) fun _ => all_screenTimerRefresh rfl rfl
    · subst hz
      simp [Flag.Told, flag, Flag.after, Course.after, hv, Travel.code]
  · have hsame : (flag allowed depth).after (.adcRead .moto) v y = y := by
      simp [flag, Flag.after, Course.after, hv]
    rw [hsame]
    exact hy.1

/-- Each case of the switch tells the flag where it sends the valve. -/
theorem run_motoSwitch_flag (h : x.Told) (e : MotoBits) :
    (flag allowed depth).Run (motoSwitch e) x fun _ y => y.Told := by
  refine Sight.Run.ite (fun _ => ?_) fun _ => Sight.Run.ite (fun _ => ?_) fun _ => Sight.Run.ite (fun _ => ?_) fun _ => h
  · exact Sight.Run.step fun _ _ => ⟨trivial, run_clear (p := pure ()) rfl⟩
  · refine Sight.Run.step fun _ _ => ⟨trivial, Sight.Run.step fun (right : Bool) _ => ⟨trivial, ?_⟩⟩
    refine Sight.Run.ite (fun _ => ?_) fun _ => Sight.Run.perform fun _ _ => ⟨trivial, rfl⟩
    exact run_past rfl fun _ _ => run_past rfl fun _ _ => Sight.Run.perform fun _ _ => ⟨trivial, rfl⟩
  · refine Sight.Run.step fun _ _ => ⟨trivial, Sight.Run.step fun (left : Bool) _ => ⟨trivial, ?_⟩⟩
    refine Sight.Run.when (fun hl => ?_) fun hl => ?_
    · subst hl
      exact run_past rfl fun _ _ => run_past rfl fun _ _ => Sight.Run.perform fun _ _ => ⟨trivial, rfl⟩
    · obtain rfl : left = false := by simpa using hl
      exact h

theorem run_motoEntry_flag (h : x.Told) (hd : x.course.due = none) :
    (flag allowed depth).Run motoEntry x fun _ y => y.Told := by
  refine Sight.Run.bind (run_motoPoll_flag h hd) fun _ y hy => run_past rfl fun (e : MotoBits) _ => ?_
  refine Sight.Run.bind (R := fun _ z => z.Told) (Sight.Run.when (fun _ => run_motoSwitch_flag hy e) fun _ => hy)
    fun _ z hz => run_past (f := pure) rfl fun _ _ => hz

end

/-- Between two passes `MotoWorkFlag` says where the valve is. -/
theorem flag_tells_travel (allowed : Call → Bool) (depth : Nat) (flash : Nat → Nat) (as : List Act)
    (hidle : ((board allowed depth).run (start flash) as).task .motor = none) :
    ((board allowed depth).run (start flash) as).state.vars .motoWorkFlag =
      (course ((board allowed depth).run (start flash) as).trace).travel.code := by
  have hvar : ∀ v, v = .leftStatus ∨ v = .rightStatus → (boot flash).vars v = 0 := fun v hv => by
    rw [boot_vars (fun n => by rcases hv with rfl | rfl <;> rfl) (fun w => by rcases hv with rfl | rfl <;> simp)
      (by rcases hv with rfl | rfl <;> decide)]
    rcases hv with rfl | rfl <;> rfl
  have hsees : Flag.Sees ⟨0, 0, 0, {}⟩ (boot flash) [] :=
    ⟨boot_motoWorkFlag flash, hvar _ (.inl rfl), hvar _ (.inr rfl), rfl⟩
  obtain ⟨x, -, hx, hrest⟩ := Owner.run_sees (N := flag allowed depth) (y := ⟨0, 0, 0, {}⟩) (fun c s x hready hrest _ => by
    have hr : (Thread.motor = c.thread ∧ allowed c = true) ∧ c.enabled s = true := by simpa [board, flag] using hready
    obtain ⟨⟨ht, -⟩, -⟩ := hr
    cases c with
    | motoEntry => exact run_motoEntry_flag hrest rfl
    | _ => cases ht) rfl trivial hsees (System.admits_true _ as)
  have htold : x.Told := hrest hidle
  exact hx.work.trans (htold.trans (congrArg (fun y : Course => y.travel.code) hx.course.symm))

/-! ### Calls of Moto_Cycle -/

/-- What the rule comes to: the flag is not 0. -/
def FlagRule (cfg : Conf) : Act → Prop
  | .start _ _ => True
  | .step t _ => t = .lcd → cfg.head t = some (.load .motoWorkFlag) → late cfg.trace = true →
    cfg.state.vars .motoWorkFlag ≠ 0

theorem flagRule_of_requestRule {flash : Nat → Nat} {as : List Act}
    (h : (board allowed depth).Admits RequestRule (start flash) as) :
    (board allowed depth).Admits FlagRule (start flash) as := by
  refine h.mono_of_run (Q := fun cfg => cfg.task .motor = none →
    cfg.state.vars .motoWorkFlag = (course cfg.trace).travel.code) (fun bs _ _ => flag_tells_travel allowed depth flash bs) ?_
  intro cfg a hflag hr
  cases a with
  | start t c => trivial
  | step t i =>
    intro ht hhead hlate
    obtain ⟨hidle, hmoves⟩ := hr ⟨ht, hhead, hlate⟩
    rw [hflag (Option.isNone_iff_eq_none.mp hidle)]
    revert hmoves
    cases (course cfg.trace).travel <;> decide

/-- `early` says that the display thread is known not to be in a late call. -/
structure Spared (early : Bool) (tr : Trace) : Prop where
  past : undisturbed tr = true
  early : early = true → late tr = false

def spared (allowed : Call → Bool) (depth : Nat) : Protocol (board allowed depth) Bool where
  Rule := FlagRule
  Inv := fun gs _ tr => Spared (gs .lcd) tr
  At := fun _ _ _ => True

section
variable {t : Thread} {o : Op} {i : Input} {tr : Trace} {early : Bool}

theorem late_did (h : t = .lcd → ∀ c, o ≠ .mark (.motoCycle c)) : late (.did t o i :: tr) = late tr := by
  by_cases ho : ∃ c, o = .mark (.motoCycle c)
  · obtain ⟨c, rfl⟩ := ho
    cases t <;> first | rfl | exact absurd rfl (h rfl c)
  · cases t <;> cases o <;> first | rfl | skip
    next m => cases m <;> first | rfl | exact absurd ⟨_, rfl⟩ ho

theorem Spared.did (h : Spared early tr) (hm : t = .lcd → ∀ c, o ≠ .mark (.motoCycle c))
    (ho : t = .lcd → touches o = true → early = true) : Spared early (.did t o i :: tr) := by
  refine ⟨?_, fun he => (late_did hm).trans (h.early he)⟩
  have hsafe : (t == .lcd && touches o && late tr) = false := by
    by_contra hn
    simp only [Bool.not_eq_false, Bool.and_eq_true, beq_iff_eq] at hn
    exact absurd ((h.early (ho hn.1.1 hn.1.2)).symm.trans hn.2) Bool.false_ne_true
  simp [undisturbed, hsafe, h.past]

theorem Spared.began {c : Call} (h : Spared early tr) : Spared early (.began t c :: tr) :=
  ⟨h.past, fun he => by simp [late, h.early he]⟩

end

/-- The operation neither disturbs the motor nor enters a request. -/
def beside : Op → Bool
  | .motoSend _ | .timerStart .motoCycle | .timerStop .motoCycle | .mark (.motoCycle _) => false
  | _ => true

theorem beside_iff {o : Op} (h : beside o = true) : touches o = false ∧ ∀ c, o ≠ .mark (.motoCycle c) := by
  cases o with
  | motoSend b => cases h
  | timerStart x => cases x <;> first | exact ⟨rfl, by simp⟩ | cases h
  | timerStop x => cases x <;> first | exact ⟨rfl, by simp⟩ | cases h
  | mark m => cases m <;> first | cases h; done | exact ⟨rfl, by simp⟩
  | _ => exact ⟨rfl, by simp⟩

/-- The program may run in any call, whatever is known of it. -/
def Spares (allowed : Call → Bool) (depth : Nat) (c : Call) {α : Type} (p : Code α) : Prop :=
  ∀ g, (spared allowed depth).Outline .lcd c p g fun _ _ => True

section
variable {c : Call} {early : Bool}

theorem Spares.compositional : Compositional fun (p : Code _) => Spares allowed depth c p :=
  ⟨fun _ _ => trivial, fun hp hf g => (hp g).bind fun a g' _ => hf a g'⟩

theorem spared_keep {α : Type} {p : Code α} (hp : p.All fun o => (∀ c, o ≠ .mark (.motoCycle c)) ∧
      (touches o = true → early = true)) :
    (spared allowed depth).Outline .lcd c p early fun _ g => g = early := by
  refine Outline.keep trivial (hp.mono fun o ho cfg gs i _ _ hg hold _ => ?_) fun _ => rfl
  have hinv : Spared (gs .lcd) cfg.trace := hold.1
  exact hinv.did (fun _ => ho.1) fun _ ht => hg.trans (ho.2 ht)

theorem spares_of_beside {o : Op} (h : beside o = true) : Spares allowed depth c (perform o) := by
  obtain ⟨ho, hm⟩ := beside_iff h
  refine fun g => (spared_keep (All.perform ⟨hm, fun ht => ?_⟩)).mono fun _ _ _ => trivial
  exact absurd (ho.symm.trans ht) Bool.false_ne_true

theorem spared_enter (caller : Caller) :
    (spared allowed depth).Outline .lcd c (mark (.motoCycle caller)) early fun _ g => g = false := by
  refine Outline.move trivial (fun cfg gs i _ _ _ hold _ => ?_) fun _ => rfl
  have hinv : Spared (gs .lcd) cfg.trace := hold.1
  show Spared (Function.update gs .lcd false .lcd) _
  rw [Function.update_self]
  refine ⟨?_, nofun⟩
  simp [undisturbed, touches, hinv.past]

/-- A flag that reads 0 shows that no backwash was in progress. -/
theorem spared_read :
    (spared allowed depth).Outline .lcd c (load .motoWorkFlag) false fun working g => working = 0 → g = true := by
  refine Outline.perform fun cfg gs i _ hhead hg hold hr =>
    ⟨decide (cfg.state.vars .motoWorkFlag = 0), trivial, ?_, fun hw => decide_eq_true hw⟩
  have hinv : Spared (gs .lcd) cfg.trace := hold.1
  show Spared (Function.update gs .lcd _ .lcd) _
  rw [Function.update_self]
  have hdid : undisturbed (.did .lcd (.load .motoWorkFlag) i :: cfg.trace) = true := by
    simp [undisturbed, touches, hinv.past]
  refine ⟨hdid, fun hw => ?_⟩
  rw [late_did fun _ c => by simp]
  by_contra hlate
  exact hr rfl hhead (by simpa using hlate) (of_decide_eq_true hw)

/-- Once the flag has read 0 the call may do what it is for. -/
theorem spared_accept : (spared allowed depth).Outline .lcd c motoCycleAccept true fun _ _ => True := by
  have hall : motoCycleAccept.All fun o => ∀ c, o ≠ .mark (.motoCycle c) := by
    simp only [motoCycleAccept, screenTimerStop, greenLight, redOff]
    repeat' first | intro _ | with_reducible apply All.bind | exact All.perform (by simp)
  exact (spared_keep (hall.mono fun _ ho => ⟨ho, fun _ => rfl⟩)).mono fun _ _ _ => trivial

theorem spares_motoCycle (caller : Caller) : Spares allowed depth c (motoCycle caller) := by
  have hop : ∀ o, beside o = true → Spares allowed depth c (perform o) := fun _ => spares_of_beside
  have hbelow : ∀ {α : Type} {p : Code α}, p.All (fun o => beside o = true) →
      (spared allowed depth).Outline .lcd c p false fun _ g => g = false := fun hp =>
    spared_keep (hp.mono fun o ho => ⟨(beside_iff ho).2, fun ht => absurd ((beside_iff ho).1.symm.trans ht) (by decide)⟩)
  refine fun g => (spared_enter caller).bind fun _ g hg => ?_
  subst hg
  refine Outline.seq (m := false) (hbelow ?_) fun _ => Outline.seq (m := false) (hbelow ?_) fun supplied => ?_
  · exact All.bind (All.perform rfl) fun _ => All.perform (o := Op.store (.rtcTime .automatic) 0) rfl
  · exact All.bind (All.perform rfl) fun _ => All.ite (All.pure _)
      (All.bind (All.bind (All.perform rfl) fun _ => All.pure _) fun _ => All.pure _)
  · refine Outline.ite (fun _ => ?_) fun _ => ?_
    · refine spared_read.bind fun (working : Nat) g hw => Outline.when (fun hz => ?_) fun _ => trivial
      rw [hw hz]
      exact spared_accept
    · exact Spares.compositional.bind (hop (.jumpSend .exit) rfl) (fun _ => hop (.store .jumpToBatteryEmptyFlag 1) rfl)
        false

/-! ### Every call -/

theorem beside_of_winMay {w : Win} {o : Op} (hw : w ≠ .w2) (h : winMay w o = true) : beside o = true := by
  have hown := (Bool.and_eq_true_iff.mp h).2
  have hw' : (w == .w2) = false := by simpa using hw
  cases o with
  | motoSend b => simp [ownMay, hw'] at hown
  | timerStart x => simp [ownMay, hw'] at hown
  | timerStop x => simp [ownMay, hw'] at hown
  | mark m => cases m <;> first | rfl | simp [ownMay, hw'] at hown
  | _ => rfl

theorem beside_of_editMay {o : Op} (h : (editMay .w2 o && !requestOnly o) = true) : beside o = true := by
  have hreq := (Bool.and_eq_true_iff.mp h).2
  cases o with
  | motoSend b => cases hreq
  | timerStart x => cases hreq
  | timerStop x => cases hreq
  | mark m => cases hreq
  | _ => rfl

theorem beside_of_taskMay {o : Op} (h : taskMay o = true) : beside o = true := by
  cases o with
  | motoSend b => cases h
  | timerStart x => cases x <;> first | rfl | cases h
  | timerStop x => cases h
  | mark m => cases m <;> first | rfl | cases h
  | _ => rfl

theorem beside_of_openMay {o : Op} (h : openMay o = true) : beside o = true := by
  cases o with
  | motoSend b => cases h
  | timerStart x => cases h
  | timerStop x => cases h
  | mark m => cases m <;> first | rfl | cases h
  | _ => rfl

theorem spares_guiWinDisplay (n : Nat) : Spares allowed depth c (guiWinDisplay n) := by
  have hbind : Compositional fun {α : Type} (p : Code α) => Spares allowed depth c p := Spares.compositional
  induction n with
  | zero => exact fun _ => trivial
  | succ n ih =>
    refine hbind.bind (spares_of_beside rfl) fun (top : Option Win) => ?_
    cases top with
    | none => exact fun _ => trivial
    | some w =>
      refine hbind.bind (spares_of_beside rfl) fun _ => ?_
      by_cases hw : w = .w2
      · subst hw
        exact built_requestWinFun hbind (spares_motoCycle _) fun o ho => spares_of_beside (beside_of_editMay ho)
      · exact built_winFun hbind ih fun o ho => spares_of_beside (beside_of_winMay hw ho)

theorem spares_lcd (hc : c.thread = .lcd) : Spares allowed depth c (body depth c) := by
  have hbind : Compositional fun {α : Type} (p : Code α) => Spares allowed depth c p := Spares.compositional
  cases c with
  | lcdTask =>
    exact built_lcdTaskEntry hbind (spares_guiWinDisplay depth)
      (built_openLcdDisplay hbind fun o ho => spares_of_beside (beside_of_openMay ho)) (spares_motoCycle _)
      fun o ho => spares_of_beside (beside_of_taskMay ho)
  | motoCycle caller => exact spares_motoCycle caller
  | scheduleSave k =>
    exact built_scheduleSave hbind k fun o ho => spares_of_beside (beside_of_winMay (by cases k <;> decide) ho)
  | _ => cases hc

end

theorem spared_begins (c : Call) : (spared allowed depth).Begins c.thread c := by
  intro cfg gs _ _ hold _
  have hinv : Spared (gs .lcd) cfg.trace := hold.1
  refine ⟨gs c.thread, trivial, ?_, ?_⟩
  · rw [Function.update_eq_self]
    exact hinv.began
  by_cases hl : c.thread = .lcd
  · rw [hl]
    exact spares_lcd hl _
  · refine Outline.keep trivial (All.of_forall (fun o cfg gs i _ _ _ hold _ => ?_) _) fun _ => trivial
    have hinv : Spared (gs .lcd) cfg.trace := hold.1
    exact hinv.did (fun e => absurd e hl) fun e => absurd e hl

/-- A request made while a backwash is in progress leaves the motor and its timer alone,
in every run in which it meets the valve on its way. -/
theorem request_undisturbed (allowed : Call → Bool) (depth : Nat) (flash : Nat → Nat) (as : List Act)
    (h : (board allowed depth).Admits RequestRule (start flash) as) :
    undisturbed ((board allowed depth).run (start flash) as).trace = true := by
  have hstart : (spared allowed depth).Good (fun _ => true) (start flash) :=
    Good.boot ⟨rfl, fun _ => rfl⟩ fun _ => trivial
  obtain ⟨gs, hgood⟩ := run_good (begins_board fun c _ => spared_begins c) hstart (flagRule_of_requestRule h)
  exact hgood.1.past

/-- Requests in forward travel, with the motor's pass under way when the call begins, and
in return travel. -/
def requestsUnderway : List Act :=
  request ++ openPass 8 ++ .start .motor .motoEntry :: .start .lcd (.motoCycle .userMain2WinFun) :: turns .lcd {} 3 ++
    turns .motor {level := true} 14 ++ turns .lcd {} 10 ++ rightPass 26 ++ expiry ++ openPass 8 ++ request

theorem request_undisturbed_underway :
    inProgress ((board motorCalls 0).run (start fun _ => 0) requestsUnderway).trace = true ∧
    (board motorCalls 0).Admits RequestRule (start fun _ => 0) requestsUnderway ∧
    undisturbed ((board motorCalls 0).run (start fun _ => 0) requestsUnderway).trace = true :=
  ⟨by decide +kernel, by decide +kernel, request_undisturbed motorCalls 0 (fun _ => 0) requestsUnderway (by decide +kernel)⟩

/-- In the dwell at the right limit `MotoWorkFlag` is 0: a request made there is accepted
and starts the timer again. -/
theorem request_restarts_dwell :
    inProgress ((board motorCalls 0).run (start fun _ => 0) (request ++ openPass 8 ++ rightPass 26)).trace = true ∧
    undisturbed ((board motorCalls 0).run (start fun _ => 0)
      (request ++ openPass 8 ++ rightPass 26 ++ request)).trace = false := by
  constructor <;> decide +kernel

end Backwash.Motor
