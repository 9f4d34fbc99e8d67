import Backwash.Firmware.Obligations

/-! Stop mode and the flash chip.

On its way to stop mode the timer thread takes the supply from the flash chip,
then its bus. Whoever is writing to the chip is not asked: the lock that a write
takes is not the sleep's. So a write is cut when one of the two timers that lead to stop
mode expires in the middle of it. -/
namespace Backwash.Sleep
open Concurrent Prog Protocol Firmware

/-! ### Writes and the power-down -/

/-- The operation starts a write. -/
def startsWrite : Op → Bool
  | .efBegin _ => true
  | _ => false

/-- The operation belongs to `FlashDeInit`. -/
def powersDown : Op → Bool
  | .pinWrite p b => match p with
    | .flashEn | .flashMosi | .flashMiso | .flashSclk | .flashCs => !b
    | _ => false
  | _ => false

/-- The thread is between the start and the end of a `Flash_Set`. -/
def writing (t : Thread) (tr : Trace) : Bool := (lastOp t tr).any startsWrite

/-- Some thread is. -/
def someWriting (tr : Trace) : Bool :=
  [Thread.timer, .motor, .button, .rtcCheck, .lcd, .serial, .battery, .shell, .irq, .clock].any (writing · tr)

/-- `FlashDeInit` was executed while some thread was writing. -/
def cutWrite : Trace → Bool
  | [] => false
  | .did _ o _ :: tr => (powersDown o && someWriting tr) || cutWrite tr
  | .began _ _ :: tr => cutWrite tr

/-- The callbacks that lead to stop mode, and `EnterLowPower` called by itself. -/
def leadsToStop : Call → Bool
  | .expire .screenVcc | .expire .lowPower | .enterLowPower => true
  | _ => false

/-- Such a callback has begun and has not yet been through `FlashDeInit`, which ends with
the chip-select line. -/
def goingDown : Trace → Bool
  | [] => false
  | .began _ c :: tr => leadsToStop c || goingDown tr
  | .did _ o _ :: tr => if o = .pinWrite .flashCs false then false else goingDown tr

/-- The screen-Vcc timer and `LowPowerTimer` do not expire while a thread stores. From there
through `FlashDeInit` the timer thread, whose priority is the highest, is not preempted:
interrupts may come in between, no other thread goes on. -/
def FlashRule (cfg : Conf) : Act → Prop
  | .start _ c => leadsToStop c = true → someWriting cfg.trace = false
  | .step t _ => t ≠ .timer ∧ t ≠ .irq → goingDown cfg.trace = false

instance (cfg : Conf) : ∀ a, Decidable (FlashRule cfg a)
  | .start _ _ => inferInstanceAs (Decidable (_ → _))
  | .step _ _ => inferInstanceAs (Decidable (_ → _))

/-! ### The invariant -/

/-- `down` says whether the timer thread is on its way to power the chip down. -/
structure Unwritten (down : Bool) (tr : Trace) : Prop where
  cut : cutWrite tr = false
  place : goingDown tr = down
  silent : down = true → someWriting tr = false

variable {allowed : Call → Bool} {depth : Nat}

def unwritten (allowed : Call → Bool) (depth : Nat) : Protocol (board allowed depth) Bool where
  Rule := FlashRule
  Inv := fun gs _ tr => Unwritten (gs .timer) tr
  At := fun t c g => g = false ∨ (t = .timer ∧ c ≠ none)

section
variable {t : Thread} {o : Op} {i : Input} {tr : Trace} {down : Bool}

theorem mem_threads (t : Thread) :
    t ∈ [Thread.timer, .motor, .button, .rtcCheck, .lcd, .serial, .battery, .shell, .irq, .clock] := by
  cases t <;> decide

theorem writing_of_some (h : someWriting tr = false) (u : Thread) : writing u tr = false := by
  have hall := List.any_eq_false.mp h u (mem_threads u)
  exact Bool.eq_false_iff.mpr hall

/-- A write is under way after an operation only if it starts one or was before. -/
theorem someWriting_did (ho : startsWrite o = false) (h : someWriting tr = false) :
    someWriting (.did t o i :: tr) = false := by
  refine List.any_eq_false.mpr fun u _ => Bool.eq_false_iff.mp ?_
  by_cases hu : t = u
  · subst hu
    simpa [writing] using ho
  · rw [writing, lastOp_did_of_ne hu]
    exact writing_of_some h u

theorem someWriting_began {c : Call} (h : someWriting tr = false) : someWriting (.began t c :: tr) = false := by
  refine List.any_eq_false.mpr fun u _ => Bool.eq_false_iff.mp ?_
  by_cases hu : t = u
  · subst hu
    simp [writing, lastOp]
  · rw [writing, lastOp_began_of_ne hu]
    exact writing_of_some h u

/-- An operation before or after the power-down, or in the middle of it. -/
theorem Unwritten.did (h : Unwritten down tr) (hcs : o ≠ .pinWrite .flashCs false)
    (hp : powersDown o = true → down = true) (hw : startsWrite o = true → down = false) :
    Unwritten down (.did t o i :: tr) := by
  refine ⟨?_, ?_, fun hd => ?_⟩
  · have hsafe : (powersDown o && someWriting tr) = false := by
      cases ho : powersDown o with
      | false => rfl
      | true => exact h.silent (hp ho)
    simp [cutWrite, h.cut, hsafe]
  · simp [goingDown, hcs, h.place]
  · refine someWriting_did (Bool.eq_false_iff.mpr fun hs => ?_) (h.silent hd)
    exact absurd ((hw hs).symm.trans hd) Bool.false_ne_true

end

/-! ### The threads -/

theorem other_unwritten {t : Thread} {c : Call} {o : Op} (ht : t ≠ .timer) (hmay : may t o = true) :
    (unwritten allowed depth).Keeps t c false o := by
  intro cfg gs i _ _ _ hold hr
  have hpin : ∀ p b, o = .pinWrite p b → powersDown o = false := by
    rintro p b rfl
    cases t <;> cases p <;> first | exact absurd rfl ht | rfl | cases hmay
  have hdown : powersDown o = false := by
    cases o with
    | pinWrite p b => exact hpin p b rfl
    | _ => rfl
  refine hold.1.did (fun e => ?_) (fun e => ?_) fun hs => ?_
  · rw [e] at hdown
    cases hdown
  · rw [hdown] at e
    cases e
  · by_cases hirq : t = .irq
    · -- an interrupt stores nothing in the flash
      subst hirq
      cases o with
      | efBegin => cases hmay
      | _ => cases hs
    · rw [← hold.1.place]
      exact hr ⟨ht, hirq⟩

section
variable {c : Call} {down : Bool}

/-- A stretch of the timer thread before or after the power-down: on the way to stop mode it
does not write. -/
theorem unwritten_keep {α : Type} {p : Code α}
    (hp : p.All fun o => powersDown o = false ∧ (startsWrite o = false ∨ down = false)) :
    (unwritten allowed depth).Outline .timer c p down fun _ x => x = down := by
  refine Outline.keep (.inr ⟨rfl, Option.some_ne_none c⟩) (hp.mono fun o ho cfg gs i _ _ hg hold _ => ?_) fun _ => rfl
  have hinv : Unwritten down cfg.trace := hg ▸ hold.1
  show Unwritten (gs .timer) _
  rw [hg]
  refine hinv.did (fun e => ?_) (fun e => ?_) fun e => ?_
  · rw [e] at ho
    exact absurd ho.1 (by decide)
  · exact absurd (ho.1.symm.trans e) Bool.false_ne_true
  · exact ho.2.resolve_left fun h => absurd (h.symm.trans e) Bool.false_ne_true

/-- A line of the chip but the chip select goes low. -/
theorem unwritten_line {q : Pin} (hq : q ≠ .flashCs) :
    (unwritten allowed depth).Outline .timer c (pinWrite q false) true fun _ x => x = true := by
  refine Outline.keep (.inr ⟨rfl, Option.some_ne_none c⟩) (All.perform fun cfg gs i _ _ hg hold _ => ?_) fun _ => rfl
  have hinv : Unwritten true cfg.trace := hg ▸ hold.1
  show Unwritten (gs .timer) _
  rw [hg]
  exact hinv.did (by simpa using hq) (fun _ => rfl) fun e => absurd e Bool.false_ne_true

theorem unwritten_chipSelect :
    (unwritten allowed depth).Outline .timer c (pinWrite .flashCs false) true fun _ x => x = false := by
  refine Outline.move (.inl rfl) (fun cfg gs i _ _ hg hold _ => ?_) fun _ => rfl
  have hsilent : someWriting cfg.trace = false := hold.1.silent hg
  refine ⟨?_, ?_, fun e => ?_⟩
  · simp [cutWrite, hsilent, hold.1.cut]
  · simp [goingDown]
  · simp at e

theorem unwritten_flashDeInit :
    (unwritten allowed depth).Outline .timer c flashDeInit true fun _ x => x = false :=
  (unwritten_line (by decide)).seq fun _ => (unwritten_line (by decide)).seq fun _ =>
    (unwritten_line (by decide)).seq fun _ => (unwritten_line (by decide)).seq fun _ => unwritten_chipSelect

theorem unwritten_enterLowPower :
    (unwritten allowed depth).Outline .timer c enterLowPower true fun _ x => x = false := by
  have hbefore : (unwritten allowed depth).Outline .timer c beforSleep true fun _ x => x = false := by
    refine Outline.seq (unwritten_keep ?_) fun _ => Outline.seq (unwritten_keep ?_) fun _ =>
      unwritten_flashDeInit.seq fun _ => unwritten_keep ?_
    all_goals
      simp only [ledInit, motoPinDeInit, wifiDeInit, closeLcdVcc]
      repeat' first | intro _ | with_reducible apply All.bind | exact All.perform ⟨rfl, .inl rfl⟩
  refine Outline.seq (unwritten_keep (All.perform ⟨rfl, .inl rfl⟩)) fun _ => hbefore.seq fun _ => unwritten_keep ?_
  simp only [afterWake, ledInit, motoPinInit, flashInit, jumptoMainWin]
  repeat' first
    | intro _ | with_reducible apply All.bind | with_reducible apply All.when | exact All.perform ⟨rfl, .inl rfl⟩

theorem unwritten_timerCallback (x : Timer) :
    (unwritten allowed depth).Outline .timer c (timerCallback x) (leadsToStop (.expire x)) fun _ x => x = false := by
  cases x with
  | motoCycle =>
    exact unwritten_keep (all_motoCycleTimerCallback ⟨rfl, .inr rfl⟩ ⟨rfl, .inr rfl⟩ ⟨rfl, .inr rfl⟩
      (fun _ _ => ⟨rfl, .inr rfl⟩) (all_countUp ⟨rfl, .inr rfl⟩ (fun _ => ⟨rfl, .inr rfl⟩) fun _ =>
        all_flashSet ⟨rfl, .inr rfl⟩ ⟨rfl, .inr rfl⟩ ⟨rfl, .inr rfl⟩) ⟨rfl, .inr rfl⟩)
  | screenBacklight =>
    exact unwritten_keep (All.bind (All.perform ⟨rfl, .inl rfl⟩) fun _ => All.bind (All.perform ⟨rfl, .inl rfl⟩) fun _ =>
      All.perform (o := Op.pinWrite .lcdBl false) ⟨rfl, .inl rfl⟩)
  | screenVcc =>
    exact Outline.seq (unwritten_keep (All.perform ⟨rfl, .inl rfl⟩)) fun _ => unwritten_enterLowPower
  | lowPower => exact unwritten_enterLowPower

end

/-- A call begins; one that leads to stop mode begins while nobody writes. -/
theorem Unwritten.began {down : Bool} {t : Thread} {c : Call} {tr : Trace} (h : Unwritten down tr)
    (hs : leadsToStop c = true → someWriting tr = false) : Unwritten (leadsToStop c || down) (.began t c :: tr) := by
  refine ⟨h.cut, ?_, fun hd => someWriting_began ?_⟩
  · show (leadsToStop c || goingDown tr) = (leadsToStop c || down)
    rw [h.place]
  · rcases Bool.or_eq_true_iff.mp hd with e | e
    · exact hs e
    · exact h.silent e

theorem unwritten_begins (c : Call) : (unwritten allowed depth).Begins c.thread c := by
  have hidle : ∀ x, (unwritten allowed depth).At c.thread none x → x = false := fun x hx => by
    simpa [unwritten] using hx
  by_cases ht : c.thread = .timer
  · intro cfg gs hnone _ hold hr
    have hg : gs .timer = false := by
      have hat := hold.2 .timer
      rw [← ht] at hat ⊢
      rw [show cfg.call c.thread = none by simp [Config.call, hnone]] at hat
      exact hidle _ hat
    have hinv : Unwritten false cfg.trace := hg ▸ hold.1
    have hbody : (unwritten allowed depth).Outline .timer c (body depth c) (leadsToStop c) fun _ x => x = false := by
      cases c with
      | expire x => exact unwritten_timerCallback x
      | expireSemJump => exact unwritten_keep (All.perform ⟨rfl, .inl rfl⟩)
      | enterLowPower => exact unwritten_enterLowPower
      | _ => cases ht
    have hbegan : Unwritten (leadsToStop c) (.began c.thread c :: cfg.trace) := by
      have h := hinv.began (t := c.thread) (c := c) hr
      rwa [Bool.or_false] at h
    refine ⟨leadsToStop c, .inr ⟨ht, Option.some_ne_none c⟩, ?_, ?_⟩
    · show Unwritten (Function.update gs c.thread (leadsToStop c) .timer) _
      rw [ht, Function.update_self]
      exact ht ▸ hbegan
    · rw [ht]
      exact hbody.mono fun _ _ e => .inl e
  · have hs : leadsToStop c = false := by
      cases c with
      | expire x => exact absurd rfl ht
      | enterLowPower => exact absurd rfl ht
      | _ => rfl
    refine begins_quiet hidle (fun _ => .inl rfl) (fun cfg gs hold _ _ _ => ?_) fun o ho => other_unwritten ht ho
    have h := hold.1.began (t := c.thread) (c := c) fun e => absurd (hs.symm.trans e) Bool.false_ne_true
    rwa [hs, Bool.false_or] at h

/-- The flash chip is not powered down in the middle of a write, in a run that keeps
to the rule. -/
theorem never_cuts_write (allowed : Call → Bool) (depth : Nat) (flash : Nat → Nat) (as : List Act)
    (h : (board allowed depth).Admits FlashRule (start flash) as) :
    cutWrite ((board allowed depth).run (start flash) as).trace = false := by
  have hstart : (unwritten allowed depth).Good (fun _ => false) (start flash) :=
    Good.boot ⟨rfl, rfl, fun _ => rfl⟩ fun _ => .inl rfl
  obtain ⟨gs, hgood⟩ := run_good (begins_board fun c _ => unwritten_begins c) hstart h
  exact hgood.1.cut

/-- The hourly alarm with a check of a weekly reminder, up to its `n`th operation. -/
def hourlyCheck (n : Nat) : List Act := .start .irq .rtcAlarm :: alone .rtcCheck {} n

/-- The screen has been left alone for a minute. -/
def leftAlone (n : Nat) : List Act := alone (.expire .screenVcc) {level := true} n

/-- A weekly reminder, enabled. -/
def weekly : Nat → Nat := fun id => if id = 1 ∨ id = 3 then 1 else 0

theorem never_cuts_write_afterCheck :
    (board (fun _ => true) 1).Admits FlashRule (start weekly) (hourlyCheck 30 ++ leftAlone 40) ∧
    cutWrite ((board (fun _ => true) 1).run (start weekly) (hourlyCheck 30 ++ leftAlone 40)).trace = false :=
  ⟨by decide +kernel, never_cuts_write (fun _ => true) 1 weekly (hourlyCheck 30 ++ leftAlone 40) (by decide +kernel)⟩

/-- The screen timer expires while the check stores the elapsed hours. -/
theorem cuts_write_inCheck :
    cutWrite ((board (fun _ => true) 1).run (start weekly) (hourlyCheck 8 ++ leftAlone 10)).trace = true := by
  decide +kernel

end Backwash.Sleep
