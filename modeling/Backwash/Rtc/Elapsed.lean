import Backwash.Settings.Save

/-! The elapsed hours of a schedule, in RAM and in the store.

The alarm counts in RAM and releases `RTC_Check_Sem`; a pass of the check thread
takes one token and writes the hours of the enabled schedules to the store. A cut
loses RAM, so what the next start loads lags behind by the alarms that wait for
their pass, and by no more as long as nothing but a pass moves the store away from
RAM. -/
namespace Backwash.Rtc
open Concurrent Prog Protocol Firmware

/-- What the account of a schedule reads. -/
structure Hours where
  ram : Nat
  stored : Nat
  enable : Nat
  tokens : Nat

def hours (s : Device) (k : Schedule) : Hours :=
  ⟨s.vars (.rtcTime k), s.flash k.timeId, s.vars (.enable k), (s.sem .rtcCheck).length⟩

/-- How far a pass of the check thread is with a schedule. -/
inductive Status where
  | settled | owing | checked | writing (n : Nat)
  deriving DecidableEq

/-- The hours in RAM are those stored and at most `m` more. -/
def Hours.Lags (h : Hours) (m : Nat) : Prop :=
  (∃ j ≤ m, h.ram = (h.stored + j) % 2 ^ 32) ∧ (h.enable = 0 → h.ram = h.stored % 2 ^ 32)

def Status.Holds : Status → Hours → Prop
  | .settled, h => h.Lags h.tokens
  | .owing, h => h.Lags (h.tokens + 1)
  | .checked, h => h.enable ≠ 0 ∧ h.ram < 2 ^ 32
  | .writing n, h => h.enable ≠ 0 ∧ ∃ j ≤ h.tokens, h.ram = (n + j) % 2 ^ 32

/-! ### Moves of the account -/

namespace Hours

/-- The alarm counts an enabled schedule and asks for a pass. -/
def alarm (h : Hours) : Hours :=
  {h with ram := if h.enable = 0 then h.ram else (h.ram + 1) % 2 ^ 32, tokens := h.tokens + 1}

theorem Lags.alarm {h : Hours} {m : Nat} (hl : h.Lags m) : h.alarm.Lags (m + 1) := by
  obtain ⟨⟨j, hj, hram⟩, hoff⟩ := hl
  by_cases he : h.enable = 0
  · exact ⟨⟨j, Nat.le_succ_of_le hj, by simpa [Hours.alarm, he] using hram⟩, fun _ => by
      simpa [Hours.alarm, he] using hoff he⟩
  · refine ⟨⟨j + 1, Nat.succ_le_succ hj, ?_⟩, fun h0 => absurd h0 he⟩
    simp only [Hours.alarm, he, if_false]
    omega

end Hours

namespace Status
variable {h : Hours} {x : Status} {n : Nat}

theorem Holds.alarm (hx : x.Holds h) : x.Holds h.alarm := by
  cases x with
  | settled => exact Hours.Lags.alarm hx
  | owing => exact Hours.Lags.alarm hx
  | checked =>
    refine ⟨hx.1, ?_⟩
    simp only [Hours.alarm, hx.1, if_false]
    omega
  | writing n =>
    obtain ⟨he, j, hj, hram⟩ := hx
    refine ⟨he, j + 1, Nat.succ_le_succ hj, ?_⟩
    simp only [Hours.alarm, he, if_false]
    omega

/-- A pass takes a token and owes the schedule its turn. -/
theorem Holds.take {m : Nat} (hx : Status.settled.Holds h) (ht : h.tokens = m + 1) :
    Status.owing.Holds {h with tokens := m} := by
  have hl : h.Lags (m + 1) := ht ▸ hx
  exact hl

theorem Holds.skip (hx : Status.owing.Holds h) (he : h.enable = 0) : Status.settled.Holds h :=
  ⟨⟨0, Nat.zero_le _, hx.2 he⟩, hx.2⟩

theorem Holds.check (hx : Status.owing.Holds h) (he : h.enable ≠ 0) : Status.checked.Holds h := by
  obtain ⟨⟨j, -, hram⟩, -⟩ := hx
  exact ⟨he, hram ▸ Nat.mod_lt _ (by decide)⟩

/-- A due schedule starts again. -/
theorem Holds.zero (hx : Status.checked.Holds h) : (Status.writing 0).Holds {h with ram := 0} :=
  ⟨hx.1, 0, Nat.zero_le _, rfl⟩

theorem Holds.read (hx : Status.checked.Holds h) : (Status.writing h.ram).Holds h :=
  ⟨hx.1, 0, Nat.zero_le _, (Nat.mod_eq_of_lt hx.2).symm⟩

theorem Holds.write (hx : (Status.writing n).Holds h) : Status.settled.Holds {h with stored := n % 2 ^ 32} := by
  obtain ⟨he, j, hj, hram⟩ := hx
  refine ⟨⟨j, hj, ?_⟩, fun h0 => absurd h0 he⟩
  simp only [Nat.mod_add_mod]
  exact hram

/-- A clear is harmless where the store is clear. -/
theorem Holds.clear (h0 : h.stored % 2 ^ 32 = 0) : Status.settled.Holds {h with ram := 0} :=
  ⟨⟨0, Nat.zero_le _, h0.symm⟩, fun _ => h0.symm⟩

theorem Holds.disable (hx : Status.settled.Holds h) (hs : h.ram = h.stored % 2 ^ 32) :
    Status.settled.Holds {h with enable := n} :=
  ⟨hx.1, fun _ => hs⟩

theorem Holds.enable (hx : x.Holds h) (hn : n ≠ 0) : x.Holds {h with enable := n} := by
  cases x with
  | settled => exact ⟨hx.1, fun h0 => absurd h0 hn⟩
  | owing => exact ⟨hx.1, fun h0 => absurd h0 hn⟩
  | checked => exact ⟨hn, hx.2⟩
  | writing m => exact ⟨hn, hx.2⟩

end Status

/-! ### The account of a configuration -/

/-- The operation is not in the account of any schedule. -/
def untimed : Op → Bool
  | .store v _ => match v with
    | .rtcTime _ | .enable _ => false
    | _ => true
  | .efSet id _ => id != 16 && id != 17
  | .semTake k | .semRelease k => k != .rtcCheck
  | _ => true

theorem hours_untimed {t : Thread} {o : Op} {i : Input} {s : Device} (ho : untimed o = true) (k : Schedule) :
    hours (exec t o i s).1 k = hours s k := by
  have hvar : ∀ v : Var, (v = .rtcTime k ∨ v = .enable k) → (exec t o i s).1.vars v = s.vars v := by
    intro v hv
    refine exec_vars (v := v) (fun n e => ?_) (fun w e => ?_) (fun e => ?_) i
    · subst e
      rcases hv with rfl | rfl <;> cases ho
    · rcases hv with rfl | rfl <;> cases e
    · rcases hv with rfl | rfl <;> cases e
  have hflash : (exec t o i s).1.flash k.timeId = s.flash k.timeId := by
    refine exec_flash (fun n e => ?_) i
    subst e
    cases k <;> cases ho
  have hsem : (exec t o i s).1.sem .rtcCheck = s.sem .rtcCheck :=
    exec_sem (fun e => by rw [e] at ho; cases ho) (fun e => by rw [e] at ho; cases ho) i
  simp only [hours, hvar _ (.inl rfl), hvar _ (.inr rfl), hflash, hsem]

/-- The alarm is one move of both accounts. -/
theorem hours_alarm (s : Device) (k : Schedule) : hours (enter .rtcAlarm s) k = (hours s k).alarm := by
  by_cases hr : s.vars (.enable .reminder) = 0 <;> by_cases ha : s.vars (.enable .automatic) = 0 <;> cases k <;>
    simp [enter, halRtcAlarmAEventCallback, rtcTimerEntry, rtcCountUp, Prog.when, perform, atomically, exec,
      Device.store, hours, Hours.alarm, hr, ha, Var.width]

def bothSchedules : List Schedule := [.reminder, .automatic]

/-- The operation sets a schedule's hours in RAM. -/
def clears (k : Schedule) : Option Op → Bool
  | some (.store (.rtcTime j) _) => j == k
  | _ => false

/-- The operation disables a schedule. -/
def disables (k : Schedule) : Option Op → Bool
  | some (.store (.enable j) n) => j == k && n % 2 ^ 8 == 0
  | _ => false

/-- The display thread clears hours only where the stored ones are clear, and
disables a schedule only when the stored hours are those in RAM; both with no pass
of the check thread under way. -/
def ClearedWhereStored (cfg : Conf) : Act → Prop
  | .step t _ => t = .lcd → ∀ k ∈ bothSchedules,
    (clears k (cfg.head t) = true →
      cfg.state.flash k.timeId % 2 ^ 32 = 0 ∧ (cfg.task .rtcCheck).isNone = true) ∧
    (disables k (cfg.head t) = true →
      cfg.state.vars (.rtcTime k) = cfg.state.flash k.timeId % 2 ^ 32 ∧ (cfg.task .rtcCheck).isNone = true)
  | .start _ _ => True

instance (cfg : Conf) : ∀ a, Decidable (ClearedWhereStored cfg a)
  | .step _ _ => inferInstanceAs (Decidable (_ → _))
  | .start _ _ => isTrue trivial

/-- Alarms, passes of the check thread, requests and saves. -/
def clockCalls : Call → Bool
  | .rtcAlarm | .rtcCheck | .motoCycle _ | .scheduleSave _ => true
  | _ => false

variable {depth : Nat}

abbrev Turn := Schedule → Status

def rest : Turn := fun _ => .settled

def elapsed (depth : Nat) : Protocol (board clockCalls depth) Turn where
  Rule := ClearedWhereStored
  Inv := fun gs s _ => ∀ k, (gs .rtcCheck k).Holds (hours s k)
  At := fun t c g => g = rest ∨ (t = .rtcCheck ∧ c ≠ none)

/-! ### The check thread -/

theorem check_keep {α : Type} {p : Code α} {g : Turn} (hp : p.All fun o => untimed o = true) :
    (elapsed depth).Outline .rtcCheck .rtcCheck p g fun _ x => x = g := by
  refine Outline.keep (.inr ⟨rfl, nofun⟩) (hp.mono fun o ho cfg gs i _ _ _ hold _ k => ?_) fun _ => rfl
  rw [board_exec, hours_untimed ho]
  exact hold.1 k

/-- One operation that moves the account of schedule `k`. -/
theorem check_move {o : Op} {g : Turn} (k : Schedule) {m : Status}
    (hk : ∀ s i, (g k).Holds (hours s k) → m.Holds (hours (exec .rtcCheck o i s).1 k))
    (hother : ∀ s i j, j ≠ k → hours (exec .rtcCheck o i s).1 j = hours s j) :
    (elapsed depth).Outline .rtcCheck .rtcCheck (perform o) g fun _ x => x = Function.update g k m := by
  refine Outline.move (.inr ⟨rfl, nofun⟩) (fun cfg gs i _ _ hg hold _ j => ?_) fun _ => rfl
  have hinv : ∀ j, (g j).Holds (hours cfg.state j) := fun j => hg ▸ hold.1 j
  rw [Function.update_self, board_exec]
  by_cases hj : j = k
  · subst hj
    rw [Function.update_self]
    exact hk cfg.state i (hinv j)
  · rw [Function.update_of_ne hj, hother _ _ _ hj]
    exact hinv j

theorem timeId_ne {j k : Schedule} (h : j ≠ k) : j.timeId ≠ k.timeId := by
  cases j <;> cases k <;> first | exact absurd rfl h | decide

/-- The hours are written as they were read. -/
theorem elapsed_write {k : Schedule} {g : Turn} {n : Nat} :
    (elapsed depth).Outline .rtcCheck .rtcCheck (flashSet k.timeId n) (Function.update g k (.writing n))
      fun _ x => x = Function.update g k .settled := by
  refine (check_keep (All.perform rfl)).seq fun _ => ?_
  have hset : (elapsed depth).Outline .rtcCheck .rtcCheck (efSet k.timeId n) (Function.update g k (.writing n))
      fun _ x => x = Function.update (Function.update g k (.writing n)) k .settled := by
    refine check_move k (fun s i hx => ?_) fun s i j hj => ?_
    · rw [Function.update_self] at hx
      simpa [hours, exec] using hx.write
    · simp [hours, exec, timeId_ne hj]
  refine hset.seq fun _ => ?_
  rw [Function.update_idem]
  exact check_keep (All.perform (o := Op.mdelay 10) rfl)

theorem elapsed_jump (k : Schedule) : k.jump.All fun o => untimed o = true := by
  cases k
  all_goals
    simp only [Schedule.jump, jumptoReminder, jumptoAutomatic, countUp, flashSet]
    repeat' first | intro _ | with_reducible apply All.bind | exact All.perform rfl

theorem elapsed_schedule {k : Schedule} {g : Turn} (hg : g k = .owing) :
    (elapsed depth).Outline .rtcCheck .rtcCheck (rtcCheckSchedule k) g
      fun _ x => x = Function.update g k .settled := by
  refine Outline.bind (R := fun e x => x = Function.update g k (if e = 0 then .settled else .checked))
    (Outline.perform fun cfg gs i _ _ hgs hold _ => ?_) fun (e : Nat) x hx => ?_
  · refine ⟨_, .inr ⟨rfl, nofun⟩, fun j => ?_, rfl⟩
    have hinv : ∀ j, (g j).Holds (hours cfg.state j) := fun j => hgs ▸ hold.1 j
    have howing : Status.owing.Holds (hours cfg.state k) := hg ▸ hinv k
    rw [Function.update_self]
    by_cases hj : j = k
    · subst hj
      rw [Function.update_self]
      split
      · next he => exact howing.skip he
      · next he => exact howing.check he
    · rw [Function.update_of_ne hj]
      exact hinv j
  · subst hx
    refine Outline.when (fun he => ?_) fun he => by rw [if_pos (not_not.mp he)]
    rw [if_neg he]
    refine (check_keep (All.perform rfl)).seq fun (n : Nat) => (check_keep (All.perform rfl)).seq fun (w : Nat) => ?_
    refine (check_keep (All.perform rfl)).seq fun (d : Nat) => Outline.ite (fun _ => ?_) fun _ => ?_
    · have hzero : (elapsed depth).Outline .rtcCheck .rtcCheck (store (.rtcTime k) 0) (Function.update g k .checked)
          fun _ x => x = Function.update (Function.update g k .checked) k (.writing 0) := by
        refine check_move k (fun s i hx => ?_) fun s i j hj => ?_
        · rw [Function.update_self] at hx
          simpa [hours, exec, Device.store] using hx.zero
        · simp [hours, exec, Device.store, hj]
      rw [Function.update_idem] at hzero
      refine hzero.seq fun _ => (check_keep (All.perform rfl)).seq fun _ => ?_
      exact elapsed_write.seq fun _ => check_keep (elapsed_jump k)
    · refine Outline.bind (R := fun n x => x = Function.update g k (.writing n))
        (Outline.perform fun cfg gs i _ _ hgs hold _ => ?_) fun (n : Nat) x hx => hx ▸ elapsed_write
      refine ⟨_, .inr ⟨rfl, nofun⟩, fun j => ?_, rfl⟩
      have hinv : ∀ j, (Function.update g k .checked j).Holds (hours cfg.state j) := fun j => hgs ▸ hold.1 j
      rw [Function.update_self]
      by_cases hj : j = k
      · subst hj
        have hx := hinv j
        rw [Function.update_self] at hx ⊢
        exact hx.read
      · have hx := hinv j
        rw [Function.update_of_ne hj] at hx ⊢
        exact hx

theorem elapsed_rtcCheck :
    (elapsed depth).Outline .rtcCheck .rtcCheck rtcCheckCallback rest fun _ x => x = rest := by
  refine Outline.bind (R := fun due x => x = if due = true then fun _ => .owing else rest)
    (Outline.perform fun cfg gs i _ _ hgs hold _ => ?_) fun (due : Bool) x hx => ?_
  · have hinv : ∀ j, Status.settled.Holds (hours cfg.state j) := fun j => by
      have := hold.1 j
      rwa [hgs] at this
    cases hsem : cfg.state.sem .rtcCheck with
    | nil =>
      refine ⟨rest, .inl rfl, fun j => ?_, by simp [exec, hsem]⟩
      rw [Function.update_self]
      simpa [hours, exec, hsem, rest] using hinv j
    | cons u us =>
      refine ⟨fun _ => .owing, .inr ⟨rfl, nofun⟩, fun j => ?_, by simp [exec, hsem]⟩
      rw [Function.update_self]
      simpa [hours, exec, hsem] using (hinv j).take (m := us.length) (by simp [hours, hsem])
  · refine Outline.seq (m := rest) (Outline.when (fun hd => ?_) fun hd => by simpa [hd] using hx)
      fun _ => check_keep (All.perform (o := Op.mdelay 100) rfl)
    rw [if_pos hd] at hx
    subst hx
    refine (check_keep (All.perform rfl)).seq fun _ => ?_
    refine (elapsed_schedule (k := .reminder) rfl).seq fun _ => (elapsed_schedule (k := .automatic) rfl).seq fun _ => ?_
    have hrest : Function.update (Function.update (fun _ => Status.owing) .reminder .settled) .automatic .settled =
        rest := by
      funext j
      cases j <;> rfl
    rw [hrest]
    refine (check_keep (All.perform rfl)).seq fun (f : Nat) => Outline.when (fun _ => check_keep ?_) fun _ => rfl
    exact All.bind (All.perform rfl) fun _ => All.perform (o := Op.timerStart .lowPower) rfl

/-! ### The display thread -/

/-- What a request and a save do to the accounts: clears, and a new enable. -/
def clockOp : Op → Bool
  | .store (.rtcTime _) n => n == 0
  | .store (.enable _) _ => true
  | o => untimed o

theorem clock_motoCycle (caller : Caller) : (motoCycle caller).All fun o => clockOp o = true := by
  simp only [motoCycle, rtcClear, motoCycleSupplied, motoCycleAccept, getDcLevel, screenTimerStop, greenLight,
    redOff, jumpe, jumpToBatteryEmpty]
  repeat' first
    | intro _ | with_reducible apply All.bind | with_reducible apply All.when | with_reducible apply All.ite
    | with_reducible exact All.pure _ | exact All.perform rfl

theorem clock_scheduleSave (k : Schedule) : (scheduleSave k).All fun o => clockOp o = true := by
  cases k
  all_goals
    simp only [scheduleSave, flashSet]
    repeat' first
      | intro _ | with_reducible apply All.bind | with_reducible apply All.when | exact All.perform rfl

/-- With no pass under way every schedule is settled. -/
theorem settled_of_idle {gs : Thread → Turn} {cfg : Conf} (hold : (elapsed depth).Holds gs cfg)
    (h : (cfg.task .rtcCheck).isNone = true) : gs .rtcCheck = rest := by
  have hat := hold.2 .rtcCheck
  rw [show cfg.call .rtcCheck = none by simp [Config.call, Option.isNone_iff_eq_none.mp h]] at hat
  simpa [elapsed] using hat

theorem lcd_keeps {c : Call} {o : Op} (ho : clockOp o = true) : (elapsed depth).Keeps .lcd c rest o := by
  intro cfg gs i _ hhead _ hold hr j
  have hall : ∀ k, k ∈ bothSchedules := fun k => by cases k <;> simp [bothSchedules]
  rw [board_exec]
  by_cases hc : ∃ k n, o = .store (.rtcTime k) n
  · obtain ⟨k, n, rfl⟩ := hc
    obtain rfl : n = 0 := by simpa [clockOp] using ho
    have hrule := (hr rfl k (hall k)).1 (by simp [hhead, clears])
    rw [settled_of_idle hold hrule.2]
    by_cases hj : j = k
    · subst hj
      have := Status.Holds.clear (h := hours cfg.state j) hrule.1
      simpa [hours, exec, Device.store, rest] using this
    · have := hold.1 j
      rw [settled_of_idle hold hrule.2] at this
      simpa [hours, exec, Device.store, hj] using this
  by_cases he : ∃ k n, o = .store (.enable k) n
  · obtain ⟨k, n, rfl⟩ := he
    by_cases hj : j = k
    · subst hj
      by_cases hn : n % 2 ^ 8 = 0
      · have hrule := (hr rfl j (hall j)).2 (by simpa [hhead, disables] using hn)
        have hset := hold.1 j
        rw [settled_of_idle hold hrule.2] at hset ⊢
        have := Status.Holds.disable (n := n % 2 ^ 8) hset hrule.1
        simpa [hours, exec, Device.store, Var.width, rest] using this
      · have := (hold.1 j).enable hn
        simpa [hours, exec, Device.store, Var.width] using this
    · have := hold.1 j
      simpa [hours, exec, Device.store, hj] using this
  · have hun : untimed o = true := by
      cases o with
      | store v n =>
        cases v with
        | rtcTime k => exact absurd ⟨k, n, rfl⟩ hc
        | enable k => exact absurd ⟨k, n, rfl⟩ he
        | _ => rfl
      | _ => exact ho
    rw [hours_untimed hun]
    exact hold.1 j

theorem elapsed_begins (c : Call) (hc : clockCalls c = true) : (elapsed depth).Begins c.thread c := by
  have hidle : ∀ x, (elapsed depth).At c.thread none x → x = rest := fun x hx => by simpa [elapsed] using hx
  cases c with
  | rtcAlarm =>
    refine begins_outline hidle (.inl rfl) (fun cfg gs hold _ _ _ k => ?_) (.inl rfl)
    rw [hours_alarm]
    exact (hold.1 k).alarm
  | rtcCheck =>
    refine begins_outline hidle (.inl rfl) (fun cfg gs hold _ _ _ => hold.1) ?_
    exact elapsed_rtcCheck.mono fun _ _ e => .inl e
  | motoCycle caller =>
    refine begins_outline hidle (.inl rfl) (fun cfg gs hold _ _ _ => hold.1) ?_
    exact Outline.keep (.inl rfl) ((clock_motoCycle caller).mono fun _ => lcd_keeps) fun _ => .inl rfl
  | scheduleSave k =>
    refine begins_outline hidle (.inl rfl) (fun cfg gs hold _ _ _ => hold.1) ?_
    exact Outline.keep (.inl rfl) ((clock_scheduleSave k).mono fun _ => lcd_keeps) fun _ => .inl rfl
  | _ => cases hc

/-! ### A cut -/

/-- The hours that the next start loads are those in RAM, up to the alarms that
wait for their pass. -/
def Survives (cfg : Conf) : Prop :=
  ∀ k ∈ bothSchedules, ∃ j ∈ List.range ((cfg.state.sem .rtcCheck).length + 1),
    cfg.state.vars (.rtcTime k) = ((boot cfg.state.flash).vars (.rtcTime k) + j) % 2 ^ 32

instance (cfg : Conf) : Decidable (Survives cfg) := inferInstanceAs (Decidable (∀ _ ∈ _, _))

/-- A cut outside a pass loses nothing but waiting alarms, in a run that clears
hours only where they are stored as clear. -/
theorem elapsed_survives (depth : Nat) (flash : Nat → Nat) (as : List Act)
    (h : (board clockCalls depth).Admits ClearedWhereStored (start flash) as)
    (hcut : ((board clockCalls depth).run (start flash) as).task .rtcCheck = none) :
    Survives ((board clockCalls depth).run (start flash) as) := by
  have hload : ∀ flash k, (boot flash).vars (.rtcTime k) = flash k.timeId % 2 ^ 32 := by
    intro flash k
    have := Settings.boot_schedules flash k
    simp only [Settings.schedules, List.cons.injEq] at this
    exact this.2.2.2.1
  have hstart : (elapsed depth).Good (fun _ => rest) (start flash) := by
    refine Good.boot (fun k => ?_) fun _ => .inl rfl
    have hid : k.timeId ≠ 13 ∧ k.timeId ≠ 14 := by cases k <;> decide
    have hram : (hours (boot flash) k).ram = (hours (boot flash) k).stored % 2 ^ 32 := by
      simp only [hours, hload, boot_flash flash hid.1 hid.2]
    exact ⟨⟨0, Nat.zero_le _, hram⟩, fun _ => hram⟩
  obtain ⟨gs, hgood⟩ := run_good (begins_board elapsed_begins) hstart h
  have hrest : gs .rtcCheck = rest := by simpa [elapsed] using hgood.idle hcut
  intro k _
  have hset := hgood.1 k
  rw [hrest] at hset
  obtain ⟨⟨j, hj, hram⟩, -⟩ := hset
  refine ⟨j, List.mem_range.mpr (Nat.lt_succ_of_le hj), ?_⟩
  rw [hload, Nat.mod_add_mod]
  exact hram

/-- A weekly reminder with `n` hours stored. -/
def weekly (n : Nat) (id : Nat) : Nat := if id = 1 ∨ id = 3 then 1 else if id = 16 then n else 0

/-- An alarm with its pass, a request while nothing is stored yet, and another alarm. -/
def checkedAlarms : List Act :=
  alone (.motoCycle .userMain2WinFun) {} 13 ++ .start .irq .rtcAlarm :: alone .rtcCheck {} 30 ++
    [.start .irq .rtcAlarm]

theorem elapsed_survives_alarms :
    ((board clockCalls 0).Admits ClearedWhereStored (start (weekly 0)) checkedAlarms ∧
      ((board clockCalls 0).run (start (weekly 0)) checkedAlarms).state.vars (.rtcTime .reminder) = 2) ∧
    Survives ((board clockCalls 0).run (start (weekly 0)) checkedAlarms) :=
  ⟨by decide +kernel, elapsed_survives 0 (weekly 0) checkedAlarms (by decide +kernel)
    (Option.isNone_iff_eq_none.mp (by decide +kernel))⟩

/-- Five hours are stored, and a backwash clears them in RAM only. -/
theorem elapsed_lost_motoCycle :
    (((board clockCalls 0).run (start (weekly 5)) (alone (.motoCycle .userMain2WinFun) {} 13)).task .rtcCheck).isNone =
      true ∧
    ¬ Survives ((board clockCalls 0).run (start (weekly 5)) (alone (.motoCycle .userMain2WinFun) {} 13)) := by
  decide +kernel

end Backwash.Rtc
