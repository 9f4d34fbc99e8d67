import Backwash.Firmware.Obligations

/-! Where the firmware counts.

Four counters live in RAM and, under an id each, in the store. They are counted up in a
few functions of four threads, two of them on the way to a backwash, and reset in windows
9 to 12; `Flash_Factory` clears the store under them. Taken apart that far, a call is
otherwise made of operations that concern neither the counters nor a request. -/
namespace Backwash.Firmware
open Concurrent Prog

/-- The entry of the store, as an index into `Key_list`. -/
def Counter.entry : Counter → Nat
  | .manual => 8
  | .automatic => 9
  | .deltapress => 10
  | .error => 11

theorem Counter.entry_injective : Function.Injective Counter.entry := fun c d h => by
  cases c <;> cases d <;> first | rfl | cases h

/-- The operation changes a counter or its entry in the store, or begins to clear the store. -/
def tallies : Op → Bool
  | .store v _ => match v with
    | .counter _ => true
    | _ => false
  | .efSet id _ => 8 ≤ id && id ≤ 11
  | .mark m => m == .flashFactory
  | _ => false

/-- The operation is part of a request for a backwash. -/
def requests : Op → Bool
  | .store v _ => v == .jumptoAutomaticFlag
  | .motoSend b => b == .forward
  | .mark m => match m with
    | .motoCycle _ => true
    | _ => false
  | _ => false

/-- The operation concerns neither the counters nor a request. -/
def plainOp (o : Op) : Bool := !tallies o && !requests o

theorem plainOp_efSet {id n : Nat} (h : id < 8 ∨ 11 < id) : plainOp (.efSet id n) = true := by
  simpa [plainOp, tallies, requests] using h

/-- The windows that neither count nor request, and do not clear the store. -/
def plainWin : Win → Bool
  | .w2 | .w9 | .w10 | .w11 | .w12 | .w19 | .w25 => false
  | _ => true

theorem plainOp_saveMay {w : Win} {o : Op} (hw : plainWin w = true) (h : saveMay w o = true) : plainOp o = true := by
  obtain ⟨hmay, hsaves⟩ := Bool.and_eq_true_iff.mp h
  obtain ⟨-, hown⟩ := Bool.and_eq_true_iff.mp hmay
  cases o with
  | store v n =>
    cases v with
    | counter c => cases c <;> cases w <;> first | (cases hw; done) | cases hsaves
    | jumptoAutomaticFlag => cases w <;> first | (cases hw; done) | cases hown
    | _ => rfl
  | efSet id n =>
    refine plainOp_efSet ?_
    cases w <;> first
      | (cases hw; done)
      | cases hsaves
      | (simp only [saves, Bool.or_eq_true, beq_iff_eq] at hsaves; omega)
  | motoSend b => cases w <;> first | (cases hw; done) | cases hown
  | mark m =>
    cases m with
    | flashFactory => cases w <;> first | (cases hw; done) | cases hown
    | motoCycle c => cases w <;> first | (cases hw; done) | cases hown
    | _ => rfl
  | _ => rfl

theorem plainOp_openMay {o : Op} (h : openMay o = true) : plainOp o = true := by
  cases o with
  | store v n => cases v <;> first | rfl | cases h
  | mark m => cases m <;> first | rfl | cases h
  | _ => first | rfl | cases h

/-- The threads that count. -/
def counting : Thread → Bool
  | .motor | .timer | .rtcCheck | .lcd => true
  | _ => false

/-- A request that is not from the display thread is from the shell. -/
theorem plainOp_may {t : Thread} {o : Op} (ht : counting t = false) (h : may t o = true) :
    tallies o = false ∧ (t = .shell ∨ requests o = false) := by
  cases o with
  | store v n => cases v <;> first | exact ⟨rfl, .inr rfl⟩ | (cases t <;> first | (cases ht; done) | cases h)
  | efSet id n => cases t <;> first | (cases ht; done) | cases h
  | motoSend b => cases t <;> first | exact ⟨rfl, .inl rfl⟩ | (cases ht; done) | cases h
  | mark m =>
    cases m <;> first | exact ⟨rfl, .inr rfl⟩ | (cases t <;> first | exact ⟨rfl, .inl rfl⟩ | (cases ht; done) | cases h)
  | _ => exact ⟨rfl, .inr rfl⟩

/-! ### A call from its parts -/

/-- K2 in window 2 with `Backwash Now` selected. -/
def requestManual : Code Unit := do
  countUp .manual 8
  motoCycle .userMain2WinFun
  guiWinAdd .w3

/-- The display thread's answer to `JumptoAutomaticFlag`. -/
def serveAutomatic : Code Unit :=
  serve .jumptoAutomaticFlag do
    lcdtoBackwash
    openLcdDisplay

/-- A reset of a counter in its window. -/
def resetCounter (c : Counter) : Code Unit := do
  store (.counter c) 0
  flashSet c.entry 0
  guiWinDeleteTop

/-- `Flash_Factory` and the reset after it. -/
def factoryReset : Code Unit := do
  flashFactory
  cpuReset

/-- A property of the parts of a call. -/
structure Counted (P : ∀ {α : Type}, Code α → Prop) : Prop where
  error : P (countUp .error 11)
  press : P (countUp .deltapress 10)
  jump : P jumptoAutomatic
  manual : P requestManual
  serve : P serveAutomatic
  reset : ∀ c, P (resetCounter c)
  factory : P factoryReset
  op : ∀ o, plainOp o = true → P (perform o)

section
variable {P : ∀ {α : Type}, Code α → Prop} (hP : Compositional P) (hop : ∀ o, plainOp o = true → P (perform o))
include hP hop

theorem counted_motoEntry (hcount : P (countUp .error 11)) : P motoEntry := by
  simp only [motoEntry, motoPoll, motoFreeEventRelease, rightLimit, leftLimit, tdsWork, screenTimerRefresh, jumpa,
    jumpc, getMotoValue, motoOverload, jumpb, motoSwitch, motoCaseFree, motoCaseForward, motoCaseBack]
  repeat' first
    | with_reducible exact hcount | intro _ | with_reducible apply hP.bind | with_reducible apply hP.when | split
    | with_reducible exact hP.pure _ | exact hop _ rfl

theorem counted_enterLowPower : P enterLowPower := by
  refine built_enterLowPower hP (fun _ _ _ => hop _ rfl) (fun v n hv => hop _ ?_) (hop _ rfl) (hop _ rfl) (hop _ rfl) ?_
  · rcases hv with rfl | rfl <;> rfl
  · exact built_jumptoMainWin hP (hop _ rfl) (hop _ rfl) (hop _ rfl)

theorem counted_timerCallback (hcount : P (countUp .error 11)) (x : Timer) : P (timerCallback x) := by
  refine built_timerCallback hP (hop _ rfl) (fun _ => hop _ rfl) ?_ (counted_enterLowPower hP hop) x
  exact built_motoCycleTimerCallback hP (hop _ rfl) (hop _ rfl) (hop _ rfl) (hP.bind (hop _ rfl) fun _ => hop _ rfl) hcount
    (hop _ rfl)

theorem counted_rtcCheckCallback (hjump : P jumptoAutomatic) : P rtcCheckCallback := by
  simp only [rtcCheckCallback, rtcCheckSchedule, lowPowerTimerStart, Schedule.jump, jumptoReminder, flashSet]
  repeat' first
    | with_reducible exact hjump | intro _ | with_reducible apply hP.bind | with_reducible apply hP.when | split
    | exact hop _ rfl

theorem counted_scheduleSave (k : Schedule) : P (scheduleSave k) := by
  refine saves_scheduleSave hP k fun o ho => hop o (plainOp_saveMay ?_ ho)
  cases k <;> rfl

end

/-! ### The display thread -/

section
variable {P : ∀ {α : Type}, Code α → Prop} (hP : Compositional P) (h : Counted P)
include hP h

theorem counted_drawButtons (flags : List Nat) : P (drawButtons flags) :=
  built_drawButtons hP (fun i n => ⟨h.op (.setButton i n) rfl, h.op (.guiButton i) rfl⟩) flags

theorem counted_userMain2WinFun : P userMain2WinFun := by
  have hmanual : P (do
      countUp .manual 8
      motoCycle .userMain2WinFun
      guiWinAdd .w3) := h.manual
  have hdraw := counted_drawButtons hP h
  simp only [userMain2WinFun, window, takeKeys, toggleTwo]
  repeat' first
    | with_reducible exact hdraw _ | with_reducible exact hmanual | intro _ | with_reducible apply hP.bind
    | with_reducible apply hP.when | with_reducible exact hP.pure _ | split | exact h.op _ rfl

theorem counted_counterWinFun (w : Win) (c : Counter) (x : Text) : P (counterWinFun w c c.entry x) := by
  have hreset : P (do
      store (.counter c) 0
      flashSet c.entry 0
      guiWinDeleteTop) := h.reset c
  have hdraw := counted_drawButtons hP h
  simp only [counterWinFun, window, takeKeys, drawNowButton, drawButton, incr]
  repeat' first
    | with_reducible exact hdraw _ | with_reducible exact hreset | intro _ | with_reducible apply hP.bind
    | with_reducible apply hP.when | with_reducible exact hP.pure _ | split | exact h.op _ rfl

theorem counted_userMain19WinFun {display : Code Unit} (hd : P display) : P (userMain19WinFun display) := by
  have hfactory : P (do
      flashFactory
      cpuReset) := h.factory
  have hdraw := counted_drawButtons hP h
  simp only [userMain19WinFun, window, takeKeys, userMain19Up, userMain19Down, drawButton]
  repeat' first
    | with_reducible exact hd | with_reducible exact hdraw _ | with_reducible exact hfactory | intro _
    | with_reducible apply hP.bind | with_reducible apply hP.when | with_reducible exact hP.pure _ | split
    | exact h.op _ rfl

theorem counted_userMain25WinFun {display : Code Unit} (hd : P display) : P (userMain25WinFun display) := by
  have hjump := h.jump
  simp only [userMain25WinFun, window, takeKeys, drawButton]
  repeat' first
    | with_reducible exact hd | with_reducible exact hjump | intro _ | with_reducible apply hP.bind
    | with_reducible apply hP.when | with_reducible exact hP.pure _ | split | exact h.op _ rfl

theorem counted_winFun {display : Code Unit} (hd : P display) (w : Win) : P (winFun display w) := by
  by_cases hw : plainWin w = true
  · exact saves_winFun hP hd fun o ho => h.op o (plainOp_saveMay hw ho)
  · cases w with
    | w2 => exact counted_userMain2WinFun hP h
    | w9 => exact counted_counterWinFun hP h .w9 .manual _
    | w10 => exact counted_counterWinFun hP h .w10 .automatic _
    | w11 => exact counted_counterWinFun hP h .w11 .deltapress _
    | w12 => exact counted_counterWinFun hP h .w12 .error _
    | w19 => exact counted_userMain19WinFun hP h hd
    | w25 => exact counted_userMain25WinFun hP h hd
    | _ => exact absurd rfl hw

theorem counted_guiWinDisplay (depth : Nat) : P (guiWinDisplay depth) := by
  induction depth with
  | zero => exact hP.pure ()
  | succ depth ih =>
    refine hP.bind (h.op _ rfl) fun (top : Option Win) => ?_
    cases top with
    | none => exact hP.pure ()
    | some w => exact hP.bind (h.op _ rfl) fun _ => counted_winFun hP h ih w

theorem counted_openLcdDisplay : P openLcdDisplay :=
  built_openLcdDisplay hP fun o ho => h.op o (plainOp_openMay ho)

theorem counted_lcdTaskEntry (depth : Nat) : P (lcdTaskEntry depth) := by
  have hd := counted_guiWinDisplay hP h depth
  have hopen := counted_openLcdDisplay hP h
  have hpress := h.press
  have hjump := h.jump
  have hserve : P (serve .jumptoAutomaticFlag do
      lcdtoBackwash
      openLcdDisplay) := h.serve
  have hother : ∀ flag work, plainOp (.store flag 0) = true → P work → P (serve flag work) := fun flag work ho hwork =>
    hP.bind (h.op (.load flag) rfl) fun (f : Nat) => hP.when (hP.bind (h.op _ ho) fun _ => hwork)
  simp only [lcdTaskEntry, deltaPressWork, jumptoReminder, lcdtoReminder, pushAlert, screenTimerRefresh]
  repeat' first
    | with_reducible exact hd | with_reducible exact hpress | with_reducible exact hjump | with_reducible exact hserve
    | with_reducible exact hopen | with_reducible refine hother _ _ rfl ?_ | intro _ | with_reducible apply hP.bind
    | with_reducible apply hP.when | split | exact h.op _ rfl

/-- Every call of a thread that counts, but a bare `Moto_Cycle`. -/
theorem counted_body (depth : Nat) {c : Call} (hc : counting c.thread = true) (hmoto : ∀ k, c ≠ .motoCycle k) :
    P (body depth c) := by
  cases c with
  | motoEntry => exact counted_motoEntry hP h.op h.error
  | expire x => exact counted_timerCallback hP h.op h.error x
  | expireSemJump => exact h.op (.semRelease .k2) rfl
  | enterLowPower => exact counted_enterLowPower hP h.op
  | rtcCheck => exact counted_rtcCheckCallback hP h.op h.jump
  | lcdTask => exact counted_lcdTaskEntry hP h depth
  | motoCycle k => exact absurd rfl (hmoto k)
  | scheduleSave k => exact counted_scheduleSave hP h.op k
  | _ => cases hc

end

end Backwash.Firmware
