import Backwash.Lcd.Tokens

/-! The screen of a backwash in progress.

Window 3 clears `Jump_Flag` each time it draws itself and sets it when it receives
an outcome. Until then K2 does not leave it and reminders are dropped. An alert
that covers window 3 makes it draw itself once more. -/
namespace Backwash.Lcd
open Concurrent Prog Protocol Firmware Motor

/-! ### The property -/

/-- At the head of the display's loop, `Jump_Flag` is clear only while a backwash is
in progress or its outcome is waiting to be read. -/
def NotLeftBehind (cfg : Conf) : Prop :=
  cfg.task .lcd = none → cfg.state.vars .jumpFlag = 0 →
    inProgress cfg.trace = true ∨ cfg.state.jump ≠ .empty

/-- The display thread has made a request that was accepted or refused with
`JUMP_EXIT`, and has not read `lcd_jump_event` since. -/
def owed : Trace → Bool
  | [] => false
  | .did .lcd o _ :: tr =>
    if o = .motoSend .forward ∨ o = .jumpSend .exit then true else if o = .jumpRecv then false else owed tr
  | _ :: tr => owed tr

/-- At most one bit of `lcd_jump_event` is set. -/
def single (e : JumpBits) : Bool :=
  e == .empty || [JumpBit.tds, .stalling, .finish, .nomoto, .exit].any fun b => e == .only b

/-! ### The rule -/

/-- Window 3 draws itself while the outcome has not been shown, or for a new request;
and it never receives two bits at once. -/
def ProgressRule (cfg : Conf) : Act → Prop
  | .step t _ =>
    (t = .lcd ∧ cfg.head t = some (.store .jumpFlag 0) →
      cfg.state.vars .jumpFlag = 0 ∨ owed cfg.trace = true) ∧
    (t = .lcd ∧ cfg.head t = some .jumpRecv → single cfg.state.jump = true)
  | .start _ _ => True

instance (cfg : Conf) : ∀ a, Decidable (ProgressRule cfg a)
  | .step _ _ => inferInstanceAs (Decidable (_ ∧ _))
  | .start _ _ => inferInstanceAs (Decidable True)

instance (cfg : Conf) : Decidable (NotLeftBehind cfg) :=
  decidable_of_iff ((cfg.task .lcd).isNone = true → cfg.state.vars .jumpFlag = 0 →
    inProgress cfg.trace = true ∨ cfg.state.jump ≠ .empty) (by rw [Option.isNone_iff_eq_none]; rfl)

/-! ### The invariant -/

/-- `received`: the display thread has an outcome and has yet to set `Jump_Flag`. -/
structure Shown (received : Bool) (s : Device) (tr : Trace) : Prop where
  owed : owed tr = true → inProgress tr = true ∨ s.jump ≠ .empty
  flag : received = false → s.vars .jumpFlag = 0 → inProgress tr = true ∨ s.jump ≠ .empty

variable {allowed : Call → Bool} {depth : Nat}

def shown (allowed : Call → Bool) (depth : Nat) : Protocol (board allowed depth) Bool where
  Rule := ProgressRule
  Inv := fun gs s tr => Shown (gs .lcd) s tr
  At := fun t c g => g = false ∨ (t = .lcd ∧ c ≠ none)

section
variable {t : Thread} {o : Op} {i : Input} {s : Device} {tr : Trace} {g : Bool}

/-- The operation neither posts nor receives, neither accepts nor touches `Jump_Flag`. -/
def unshown : Op → Bool
  | .jumpSend _ | .jumpRecv => false
  | .motoSend b => b != .forward
  | .store v _ => v != .jumpFlag
  | _ => true

theorem owed_did (h : t = .lcd → o ≠ .motoSend .forward ∧ o ≠ .jumpSend .exit ∧ o ≠ .jumpRecv) :
    owed (.did t o i :: tr) = owed tr := by
  cases t with
  | lcd => simp [owed, h rfl]
  | _ => rfl

theorem send_ne_empty (e : JumpBits) (b : JumpBit) : e.send b ≠ .empty := by
  cases b <;> simp [JumpBits.send, JumpBits.empty]

theorem inProgress_did (ha : t = .lcd → o ≠ .motoSend .forward) (hp : ∀ b, o ≠ .jumpSend b) :
    inProgress (.did t o i :: tr) = inProgress tr := by
  have haccept : accepts (.did t o i) = false := by
    unfold accepts
    split
    · next heq => cases heq; exact absurd rfl (ha rfl)
    · rfl
  have hreport : reports (.did t o i) = false := reports_did fun b e => absurd e (hp b)
  simp [inProgress, haccept, hreport]

theorem Shown.keep (h : Shown g s tr) (ho : unshown o = true) : Shown g (exec t o i s).1 (.did t o i :: tr) := by
  have hsend : ∀ b, o ≠ .jumpSend b := fun b e => by rw [e] at ho; cases ho
  have hrecv : o ≠ .jumpRecv := fun e => by rw [e] at ho; cases ho
  have haccept : o ≠ .motoSend .forward := fun e => by rw [e] at ho; cases ho
  have hflag : (exec t o i s).1.vars .jumpFlag = s.vars .jumpFlag :=
    exec_vars (fun n e => by rw [e] at ho; cases ho) (fun w => by simp) (by decide) i
  refine ⟨?_, ?_⟩
  · rw [owed_did fun _ => ⟨haccept, hsend _, hrecv⟩, inProgress_did (fun _ => haccept) hsend, exec_jump hsend hrecv]
    exact h.owed
  · rw [hflag, inProgress_did (fun _ => haccept) hsend, exec_jump hsend hrecv]
    exact h.flag

/-- A post is itself something to read. -/
theorem Shown.post (b : JumpBit) : Shown g (exec t (.jumpSend b) i s).1 (.did t (.jumpSend b) i :: tr) :=
  ⟨fun _ => .inr (send_ne_empty _ _), fun _ _ => .inr (send_ne_empty _ _)⟩

/-- Of the other threads nobody receives, nobody accepts for the display and nobody
touches `Jump_Flag`. -/
theorem Shown.other (h : Shown g s tr) (ht : t ≠ .lcd) (hmay : may t o = true) :
    Shown g (exec t o i s).1 (.did t o i :: tr) := by
  by_cases ho : unshown o = true
  · exact h.keep ho
  cases o with
  | jumpSend b => exact Shown.post b
  | jumpRecv => cases t <;> first | exact absurd rfl ht | cases hmay
  | motoSend b =>
    refine ⟨?_, ?_⟩
    · rw [owed_did fun e => absurd e ht, inProgress_did (fun e => absurd e ht) (by simp)]
      exact h.owed
    · rw [inProgress_did (fun e => absurd e ht) (by simp)]
      exact h.flag
  | store v n =>
    obtain rfl : v = .jumpFlag := by simpa [unshown] using ho
    cases t <;> first | exact absurd rfl ht | cases hmay
  | _ => exact absurd rfl ho

theorem Shown.accept :
    Shown g (exec .lcd (.motoSend .forward) i s).1 (.did .lcd (.motoSend .forward) i :: tr) :=
  ⟨fun _ => .inl rfl, fun _ _ => .inl rfl⟩

end

/-! ### The display thread -/

section
variable {c : Call} {g : Bool}

theorem at_shown (g : Bool) : (shown allowed depth).At .lcd (some c) g := .inr ⟨rfl, Option.some_ne_none c⟩

/-- Everything but window 3's own business. -/
theorem shown_perform {o : Op} (ho : unshown o = true ∨ o = .motoSend .forward ∨ o = .jumpSend .exit) :
    (shown allowed depth).Outline .lcd c (perform o) g fun _ x => x = g := by
  refine Outline.keep (at_shown g) (All.perform fun cfg gs i _ _ _ hold _ => ?_) fun _ => rfl
  rcases ho with ho | rfl | rfl
  · exact hold.1.keep ho
  · exact Shown.accept
  · exact Shown.post _

theorem shown_keep {α : Type} {p : Code α} (hp : p.All fun o => unshown o = true) :
    (shown allowed depth).Outline .lcd c p g fun _ x => x = g :=
  Outline.keep (at_shown g) (hp.mono fun _ ho _ _ _ _ _ _ hold _ => hold.1.keep ho) fun _ => rfl

/-- What is received is an outcome to show, or there was none to miss. -/
theorem shown_receive :
    (shown allowed depth).Outline .lcd c jumpRecv false
      fun e x => single e = true ∧ x = decide (e ≠ .empty) := by
  refine Outline.perform fun cfg gs i _ hhead hg hold hr => ⟨decide (cfg.state.jump ≠ .empty), at_shown _, ?_, ?_⟩
  · have hinv : Shown (gs .lcd) cfg.state cfg.trace := hold.1
    show Shown (Function.update gs .lcd _ .lcd) _ _
    rw [Function.update_self]
    refine ⟨fun e => ?_, fun hnone hflag => ?_⟩
    · simp [owed] at e
    · have hempty : cfg.state.jump = .empty := by simpa using hnone
      rw [inProgress_did (by simp) (by simp)]
      rcases hinv.flag hg hflag with h | h
      · exact .inl h
      · exact absurd hempty h
  · exact ⟨hr.2 ⟨rfl, hhead⟩, rfl⟩

theorem shown_set : (shown allowed depth).Outline .lcd c (store .jumpFlag 1) g fun _ x => x = false := by
  refine Outline.move (at_shown _) (fun cfg gs i _ _ _ hold _ => ?_) fun _ => rfl
  show Shown (Function.update gs .lcd _ .lcd) _ _
  rw [Function.update_self]
  refine ⟨?_, fun _ hflag => ?_⟩
  · rw [owed_did (by simp), inProgress_did (by simp) (by simp)]
    exact hold.1.owed
  · simp [exec, Device.store, Var.width] at hflag

theorem shown_clear : (shown allowed depth).Outline .lcd c (store .jumpFlag 0) false fun _ x => x = false := by
  refine Outline.move (at_shown _) (fun cfg gs i _ hhead hg hold hr => ?_) fun _ => rfl
  have hinv : Shown (gs .lcd) cfg.state cfg.trace := hold.1
  have hdue : inProgress cfg.trace = true ∨ cfg.state.jump ≠ .empty :=
    (hr.1 ⟨rfl, hhead⟩).elim (hinv.flag hg) hinv.owed
  show Shown (Function.update gs .lcd _ .lcd) _ _
  rw [Function.update_self]
  refine ⟨fun _ => ?_, fun _ _ => ?_⟩
  all_goals
    rw [inProgress_did (by simp) (by simp)]
    exact hdue

theorem single_cases {e : JumpBits} (h : single e = true) (he : e ≠ .empty) :
    e = .only .tds ∨ e = .only .stalling ∨ e = .only .finish ∨ e = .only .nomoto ∨ e = .only .exit := by
  simpa [single, he] using h

/-- One bit is a case of the switch, and every case sets `Jump_Flag`. -/
theorem shown_showOutcome {e : JumpBits} (h : single e = true) (he : e ≠ .empty) :
    (shown allowed depth).Outline .lcd c (showOutcome e) true fun _ x => x = false := by
  have hled : (shown allowed depth).Outline .lcd c redLight true fun _ x => x = true := by
    refine shown_keep ?_
    simp only [redLight, greenOff]
    repeat' first | intro _ | with_reducible apply All.bind | exact All.perform rfl
  have hleave : (shown allowed depth).Outline .lcd c leaveProgress true fun _ x => x = true := by
    refine shown_keep ?_
    simp only [leaveProgress, redOff, greenOff]
    repeat' first | intro _ | with_reducible apply All.bind | exact All.perform rfl
  rcases single_cases h he with rfl | rfl | rfl | rfl | rfl
  · exact shown_set
  · exact hled.seq fun _ => shown_set
  · exact shown_set.seq fun _ => shown_keep (All.perform rfl)
  · exact hled.seq fun _ => shown_set
  · exact hleave.seq fun _ => shown_set

theorem shown_userMain3WinFun :
    (shown allowed depth).Outline .lcd c userMain3WinFun false fun _ x => x = false := by
  refine (shown_keep (All.perform rfl)).seq fun (f : Nat) => Outline.ite (fun _ => ?_) fun _ => ?_
  · exact (shown_keep (All.perform rfl)).seq fun _ => shown_clear
  refine shown_receive.bind fun (e : JumpBits) g hg => ?_
  obtain ⟨hsingle, rfl⟩ := hg
  refine Outline.seq (m := false) (Outline.when (fun he => ?_) fun he => ?_) fun _ => shown_keep ?_
  · rw [decide_eq_true he]
    exact shown_showOutcome hsingle he
  · exact decide_eq_false he
  · simp only [takeKeys, leaveProgress, redOff, greenOff]
    repeat' first
      | intro _ | with_reducible apply All.bind | with_reducible apply All.when | with_reducible exact All.pure _
      | exact All.perform rfl

/-- What the other windows do. -/
theorem shown_own {w : Win} {o : Op} (hw : w ≠ .w3) (h : winMay w o = true) :
    unshown o = true ∨ o = .motoSend .forward ∨ o = .jumpSend .exit := by
  obtain ⟨hmay, hown⟩ := Bool.and_eq_true_iff.mp h
  have h3 : (w == .w3) = false := by simpa using hw
  cases o with
  | jumpSend b => cases b <;> first | exact .inr (.inr rfl) | cases hmay
  | jumpRecv => exact absurd (h3.symm.trans hown) Bool.false_ne_true
  | motoSend b => cases b <;> first | exact .inr (.inl rfl) | cases hmay
  | store v n => cases v <;> first | exact .inl rfl | simp [ownMay, h3] at hown
  | _ => exact .inl rfl

theorem shown_task {o : Op} (h : taskMay o = true) : unshown o = true := by
  cases o with
  | store v n => cases v <;> first | rfl | cases h
  | jumpSend b => cases h
  | jumpRecv => cases h
  | motoSend b => cases h
  | _ => rfl

theorem shown_open {o : Op} (h : openMay o = true) : unshown o = true := by
  cases o with
  | store v n => cases v <;> first | rfl | cases h
  | jumpSend b => cases h
  | jumpRecv => cases h
  | motoSend b => cases h
  | _ => rfl

theorem shown_motoCycle (caller : Caller) :
    (shown allowed depth).Outline .lcd c (motoCycle caller) false fun _ x => x = false :=
  built_motoCycle (P := fun p => (shown allowed depth).Outline .lcd c p false fun _ x => x = false)
    (Q := fun p => (shown allowed depth).Outline .lcd c p false fun _ x => x = false) Outline.compositional
    (fun o ho => shown_perform (shown_own (by decide) (winMay_of_requestMay ho)))
    fun _ hp => (shown_perform (.inl rfl)).seq fun _ => hp

theorem shown_guiWinDisplay (n : Nat) :
    (shown allowed depth).Outline .lcd c (guiWinDisplay n) false fun _ x => x = false := by
  induction n with
  | zero => rfl
  | succ n ih =>
    refine (shown_perform (.inl rfl)).seq fun (top : Option Win) => ?_
    cases top with
    | none => rfl
    | some w =>
      refine (shown_perform (.inl rfl)).seq fun _ => ?_
      by_cases hw : w = .w3
      · subst hw
        exact shown_userMain3WinFun
      · exact built_winFun Outline.compositional ih fun o ho => shown_perform (shown_own hw ho)

theorem shown_lcd (hc : c.thread = .lcd) :
    (shown allowed depth).Outline .lcd c (body depth c) false fun _ x => x = false := by
  cases c with
  | lcdTask =>
    exact built_lcdTaskEntry Outline.compositional (shown_guiWinDisplay depth)
      (built_openLcdDisplay Outline.compositional fun o ho => shown_perform (.inl (shown_open ho)))
      (shown_motoCycle _) fun o ho => shown_perform (.inl (shown_task ho))
  | motoCycle caller => exact shown_motoCycle caller
  | scheduleSave k =>
    exact built_scheduleSave Outline.compositional k fun o ho =>
      shown_perform (shown_own (by cases k <;> decide) ho)
  | _ => cases hc

end

/-! ### Every call -/

theorem shown_begins (c : Call) : (shown allowed depth).Begins c.thread c := by
  have hidle : ∀ x, (shown allowed depth).At c.thread none x → x = false := fun x hx => by simpa [shown] using hx
  have henter : ∀ cfg gs, (shown allowed depth).Holds gs cfg → (shown allowed depth).Rule cfg (.start c.thread c) →
      gs c.thread = false → c.enabled cfg.state = true →
      (shown allowed depth).Inv gs (enter c cfg.state) (.began c.thread c :: cfg.trace) := by
    intro cfg gs hold _ _ _
    refine ⟨?_, ?_⟩
    · rw [enter_jump]
      exact hold.1.owed
    · rw [enter_jump, enter_vars (fun _ => by simp) (by decide)]
      exact hold.1.flag
  by_cases hl : c.thread = .lcd
  · refine begins_outline hidle (.inl rfl) henter ?_
    rw [hl]
    exact (shown_lcd hl).mono fun _ _ e => .inl e
  · exact begins_quiet hidle (fun _ => .inl rfl) henter fun o ho _ _ _ _ _ _ hold _ => hold.1.other hl ho

/-- The screen of a backwash in progress is not left behind, in a run that keeps to
the rule. -/
theorem progress_not_left_behind (allowed : Call → Bool) (depth : Nat) (flash : Nat → Nat) (as : List Act)
    (h : (board allowed depth).Admits ProgressRule (start flash) as) :
    NotLeftBehind ((board allowed depth).run (start flash) as) := by
  have hstart : (shown allowed depth).Good (fun _ => false) (start flash) := by
    refine Good.boot ⟨fun e => absurd e Bool.false_ne_true, fun _ hflag => ?_⟩ fun _ => .inl rfl
    rw [boot_vars (fun _ => rfl) (fun _ => by simp) (by decide)] at hflag
    cases hflag
  obtain ⟨gs, hgood⟩ := run_good (begins_board fun c _ => shown_begins c) hstart h
  intro hidle
  refine hgood.1.flag ?_
  simpa [shown] using hgood.idle hidle

/-- The battery watcher finds the battery low. -/
def batteryLow : List Act := alone .battery {value := 2000} 12

theorem progress_not_left_behind_finished :
    (board windowCalls 2).Admits ProgressRule (start fun _ => 0) finished ∧
    NotLeftBehind ((board windowCalls 2).run (start fun _ => 0) finished) :=
  ⟨by decide +kernel, progress_not_left_behind windowCalls 2 (fun _ => 0) finished (by decide +kernel)⟩

/-- A low battery is reported over the finish screen and dismissed: window 3 draws
itself once more, with nothing in progress. -/
theorem progress_left_behind_alert :
    ¬ NotLeftBehind ((board windowCalls 2).run (start fun _ => 0)
      (finished ++ batteryLow ++ lcdPass ++ lcdPass ++ press .k2 ++ lcdPass ++ lcdPass)) := by
  decide +kernel

end Backwash.Lcd
