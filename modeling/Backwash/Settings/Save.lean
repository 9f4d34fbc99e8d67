import Backwash.Firmware.Obligations

/-! Saving a schedule, with a power cut at any point.

Windows 4 and 5 write week, day and enable one after the other; the next start
loads what was written by then. -/
namespace Backwash.Settings
open Concurrent Prog Firmware

/-- A schedule as `GotValue` loads it. -/
structure Triple where
  week : Nat
  day : Nat
  enable : Nat

/-- An enabled schedule has a period. -/
def Triple.Valid (x : Triple) : Prop := x.enable ≠ 0 → x.week * 7 + x.day ≥ 1

instance (x : Triple) : Decidable x.Valid := inferInstanceAs (Decidable (_ → _))

/-- What the next start loads from the store. -/
def loaded (flash : Nat → Nat) (k : Schedule) : Triple :=
  ⟨(boot flash).vars (.week k), (boot flash).vars (.day k), (boot flash).vars (.enable k)⟩

/-- A schedule and its elapsed hours in RAM. -/
def schedules (s : Device) (k : Schedule) : List Nat :=
  [s.vars (.week k), s.vars (.day k), s.vars (.enable k), s.vars (.rtcTime k)]

theorem boot_schedules (flash : Nat → Nat) (k : Schedule) :
    schedules (boot flash) k = [flash k.weekId % 2 ^ 8, flash k.dayId % 2 ^ 8, flash k.enableId % 2 ^ 8,
      flash k.timeId % 2 ^ 32] := by
  have hweek : loadedFrom (.week k) = some k.weekId := by cases k <;> rfl
  have hday : loadedFrom (.day k) = some k.dayId := by cases k <;> rfl
  have henable : loadedFrom (.enable k) = some k.enableId := by cases k <;> rfl
  have htime : loadedFrom (.rtcTime k) = some k.timeId := by cases k <;> rfl
  rw [schedules, boot_loaded hweek, boot_loaded hday, boot_loaded henable, boot_loaded htime]
  rfl

theorem loaded_eq (flash : Nat → Nat) (k : Schedule) :
    loaded flash k = ⟨flash k.weekId % 2 ^ 8, flash k.dayId % 2 ^ 8, flash k.enableId % 2 ^ 8⟩ := by
  have h := boot_schedules flash k
  simp only [schedules, List.cons.injEq] at h
  simp only [loaded, h.1, h.2.1, h.2.2.1]

/-! ### The save -/

/-- The day that is saved: a schedule without a period is given a day. -/
def savedDay (s : Device) (k : Schedule) : Nat :=
  if s.vars (.weekTemp k) = 0 ∧ s.vars (.dayTemp k) = 0 then 1 else s.vars (.dayTemp k)

/-- The store after the first, the second and the third write of a save. -/
def weekWritten (s : Device) (k : Schedule) : Nat → Nat :=
  Function.update s.flash k.weekId (s.vars (.weekTemp k) % 2 ^ 32)

def dayWritten (s : Device) (k : Schedule) : Nat → Nat :=
  Function.update (weekWritten s k) k.dayId (savedDay s k % 2 ^ 32)

def enableWritten (s : Device) (k : Schedule) : Nat → Nat :=
  Function.update (dayWritten s k) k.enableId (s.vars (.enableTemp k) % 2 ^ 32)

variable {allowed : Call → Bool} {depth : Nat}

/-- Along a save the store takes four values. -/
theorem along_save {Q : (Nat → Nat) → Prop} {i : Input} {s : Device} {tr : Trace} (k : Schedule) :
    (board allowed depth).Along .lcd i (fun s _ => Q s.flash) (scheduleSave k) s tr ↔
      Q s.flash ∧ Q (weekWritten s k) ∧ Q (dayWritten s k) ∧ Q (enableWritten s k) := by
  by_cases hz : s.vars (.weekTemp k) = 0 ∧ s.vars (.dayTemp k) = 0
  · simp [scheduleSave, flashSet, perform, System.Along, board, exec, Device.store, Prog.when, hz, Var.width,
      weekWritten, dayWritten, enableWritten, savedDay]
  · simp [scheduleSave, flashSet, perform, System.Along, board, exec, Device.store, Prog.when, hz, Var.width,
      weekWritten, dayWritten, enableWritten, savedDay]

/-- The edited copies are bytes. -/
def Bytes (s : Device) (k : Schedule) : Prop :=
  s.vars (.weekTemp k) < 2 ^ 8 ∧ s.vars (.dayTemp k) < 2 ^ 8 ∧ s.vars (.enableTemp k) < 2 ^ 8

/-- A cut at any point of a save leaves a valid schedule in the store. -/
def CutSafe (M : System Res Thread Call Device Input) (cfg : Conf) (k : Schedule) : Prop :=
  ∀ n, (loaded (M.run cfg (alone (.scheduleSave k) {} n)).state.flash k).Valid

/-- A cut is harmless exactly when the save does not take the week away from an
enabled schedule that has no day: between the first and the second write the old
day and the old enable are still stored. -/
theorem save_cutSafe_iff (allowed : Call → Bool) (depth : Nat) (cfg : Conf) (k : Schedule)
    (hidle : cfg.task .lcd = none) (hallowed : allowed (.scheduleSave k) = true) (hbytes : Bytes cfg.state k)
    (hvalid : (loaded cfg.state.flash k).Valid) :
    CutSafe (board allowed depth) cfg k ↔
      ¬ ((loaded cfg.state.flash k).enable ≠ 0 ∧ (loaded cfg.state.flash k).day = 0 ∧
        cfg.state.vars (.weekTemp k) = 0) := by
  have halone := alone_iff depth {} (Q := fun s _ => (loaded s.flash k).Valid) hidle hallowed rfl
  refine halone.trans ?_
  simp only [body, enter, Call.thread]
  rw [along_save (Q := fun flash => (loaded flash k).Valid)]
  obtain ⟨hw, hd, he⟩ := hbytes
  have hids : k.weekId ≠ k.dayId ∧ k.weekId ≠ k.enableId ∧ k.dayId ≠ k.enableId := by cases k <;> decide
  have hday : savedDay cfg.state k < 2 ^ 8 := by
    unfold savedDay
    split
    · decide
    · exact hd
  have hperiod : cfg.state.vars (.weekTemp k) * 7 + savedDay cfg.state k ≥ 1 := by
    unfold savedDay
    split <;> omega
  simp only [loaded_eq, Triple.Valid, weekWritten, dayWritten, enableWritten, Function.update_apply, hids.1, hids.2.1,
    hids.2.2, hids.1.symm, hids.2.1.symm, hids.2.2.symm, if_true, if_false] at hvalid ⊢
  omega

/-- The schedule `old` is stored, and `new` is being edited. -/
def editing (k : Schedule) (old new : Triple) : Conf :=
  .boot ((((boot fun id => if id = k.weekId then old.week else if id = k.dayId then old.day
      else if id = k.enableId then old.enable else 0).store (.weekTemp k) new.week).store (.dayTemp k) new.day).store
    (.enableTemp k) new.enable)

theorem save_cutSafe_fiveDays :
    CutSafe (board (fun _ => true) 0) (editing .automatic ⟨0, 5, 1⟩ ⟨2, 0, 1⟩) .automatic :=
  (save_cutSafe_iff (fun _ => true) 0 (editing .automatic ⟨0, 5, 1⟩ ⟨2, 0, 1⟩) .automatic rfl rfl
    ⟨by decide +kernel, by decide +kernel, by decide +kernel⟩ (by decide +kernel)).mpr (by decide +kernel)

/-- A weekly schedule is changed to three days, and the power fails after the week is written. -/
theorem save_cut_weekly :
    (loaded (editing .reminder ⟨1, 0, 1⟩ ⟨0, 3, 1⟩).state.flash .reminder).Valid ∧
    ¬ CutSafe (board (fun _ => true) 0) (editing .reminder ⟨1, 0, 1⟩ ⟨0, 3, 1⟩) .reminder := by
  refine ⟨by decide +kernel, fun h => absurd (h 9) (by decide +kernel)⟩

end Backwash.Settings
