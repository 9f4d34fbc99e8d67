import Backwash.Firmware.Obligations

/-! The bottom of the window stack.

`GuiWinInit` empties the stack, and wherever the firmware calls it, the next thing
the same thread does is `GuiWinAdd(&userMain1Win)`. Everything else only pushes onto a
stack that has a bottom, or takes the top of one that has more than its bottom. So
the main window lies at the bottom whenever nobody is between the two calls. -/
namespace Backwash.Lcd
open Concurrent Prog System Firmware

/-! ### The property -/

/-- The thread has emptied the stack and not yet pushed the main window. -/
def resetting (t : Thread) : Trace → Bool
  | [] => false
  | .did u .guiWinInit _ :: tr => if u = t then true else resetting t tr
  | .did u (.guiWinAdd .w1) _ :: tr => if u = t then false else resetting t tr
  | _ :: tr => resetting t tr

/-- `1 <= pWin <= 16` and `winStack[0] = &userMain1Win`. -/
def MainBelow (s : Device) : Prop :=
  1 ≤ s.wins.length ∧ s.wins.length ≤ guiWinManageNum ∧ s.wins.getLast? = some .w1

/-- `JumptoMainWin` of the timer thread is not interrupted by the display thread. -/
def MainWinWhole (cfg : Conf) : Act → Prop
  | .step t _ => t = .lcd → resetting .timer cfg.trace = false
  | .start _ _ => True

instance (cfg : Conf) : ∀ a, Decidable (MainWinWhole cfg a)
  | .step _ _ => inferInstanceAs (Decidable (_ → _))
  | .start _ _ => isTrue trivial

/-- The main window is at the bottom unless somebody is resetting the stack;
`GuiWinDisplay` finds a window, and a `GuiWinDeleteTop` leaves the bottom. -/
def MainAtBottom (cfg : Conf) : Prop :=
  ((∀ t, resetting t cfg.trace = false) → MainBelow cfg.state) ∧
  (cfg.head .lcd = some .guiTop → resetting .timer cfg.trace = false → cfg.state.wins.head? ≠ none) ∧
  (cfg.head .lcd = some .guiWinDeleteTop → resetting .timer cfg.trace = false →
    MainBelow (exec .lcd .guiWinDeleteTop {} cfg.state).1)

/-! ### The push that follows a reset -/

/-- A program that begins with `GuiWinInit` goes on with the push of the main window. -/
def Refills {α : Type} (p : Code α) : Prop :=
  ∀ k, p = .op .guiWinInit k → (k ()).head = some (.guiWinAdd .w1)

section
variable {α β : Type}

theorem refills_op {o : Op} (h : o ≠ .guiWinInit) (k : Res o → Code α) : Refills (.op o k) := by
  intro k' e
  cases e
  exact absurd rfl h

theorem head_bind {p : Code α} {o : Op} (h : p.head = some o) (f : α → Code β) : (p >>= f).head = some o := by
  cases p with
  | ret a => cases h
  | op o' k => exact h

theorem Refills.bind {o : Op} {k : Res o → Code α} (h : Refills (.op o k)) (f : α → Code β) :
    Refills (.op o fun r => k r >>= f) := by
  intro k' e
  cases e
  exact head_bind (h k rfl) f

/-- Whatever is left of a program refills what it empties. -/
theorem refills_compositional : Compositional fun {α} (p : Code α) => p.Always Refills where
  pure _ := nofun
  bind {α β p f} hp hf := by
    induction p with
    | ret a => exact hf a
    | op o k ih => exact ⟨hp.1.bind f, fun r => ih r (hp.2 r)⟩

theorem refills_perform {o : Op} (h : o ≠ .guiWinInit) : (perform o : Code (Res o)).Always Refills :=
  ⟨refills_op h _, fun _ => nofun⟩

theorem refills_of_all {p : Code α} (h : p.All (· ≠ .guiWinInit)) : p.Always Refills :=
  Always.of_all h (fun _ => nofun) fun _ k ho => refills_op ho k

/-- The reset itself, before whatever comes next. -/
theorem refills_reset {p : Code α} (hp : p.Always Refills) :
    (do guiWinInit; guiWinAdd .w1; p : Code α).Always Refills := by
  refine ⟨fun k e => ?_, fun _ => ⟨refills_op (by simp) _, fun _ => hp⟩⟩
  cases e
  rfl

theorem refills_then {o : Op} (h : o ≠ .guiWinInit) {f : Res o → Code α} (hf : ∀ r, (f r).Always Refills) :
    (perform o >>= f).Always Refills :=
  refills_compositional.bind (refills_perform h) hf

end

/-! ### Every call refills -/

theorem refills_jumptoMainWin : jumptoMainWin.Always Refills :=
  refills_then (by simp) fun _ => refills_reset (p := pure ()) nofun

theorem refills_enterLowPower : enterLowPower.Always Refills :=
  built_enterLowPower refills_compositional (fun _ _ _ => refills_perform (by simp)) (fun _ _ _ => refills_perform (by simp))
    (refills_perform (by simp)) (refills_perform (by simp)) (refills_perform (by simp)) refills_jumptoMainWin

theorem refills_timerCallback (x : Timer) : (timerCallback x).Always Refills := by
  refine built_timerCallback refills_compositional (refills_perform (by simp)) (fun _ => refills_perform (by simp)) ?_
    refills_enterLowPower x
  refine built_motoCycleTimerCallback refills_compositional (refills_perform (by simp)) (refills_perform (by simp))
    (refills_perform (by simp)) ?_ ?_ (refills_perform (by simp))
  · exact refills_of_all (all_screenTimerRefresh (by simp) (by simp))
  · exact refills_of_all (all_countUp (by simp) (by simp) fun _ => all_flashSet (by simp) (by simp) (by simp))

theorem refills_leaveProgress : leaveProgress.Always Refills := by
  refine refills_then (by simp) fun _ => refills_reset ?_
  exact refills_then (o := Op.pinWrite .ledR true) (by simp) fun _ =>
    refills_perform (o := Op.pinWrite .ledG true) (by simp)

theorem refills_takeKeys : takeKeys.Always Refills :=
  refills_of_all (built_takeKeys (All.compositional _) fun _ => All.perform (by simp))

theorem refills_userMain3WinFun : userMain3WinFun.Always Refills := by
  have hleave := refills_leaveProgress
  have hkeys := refills_takeKeys
  simp only [userMain3WinFun, window, showOutcome, redLight, greenOff]
  repeat' first
    | with_reducible exact hleave | with_reducible exact hkeys | with_reducible exact refills_compositional.pure _
    | intro _ | with_reducible apply refills_compositional.bind | with_reducible apply refills_compositional.when
    | split | exact refills_perform (by simp)

theorem refills_userMain25WinFun {display : Code Unit} (hd : display.Always Refills) :
    (userMain25WinFun display).Always Refills := by
  have hkeys := refills_takeKeys
  have hout : (do store (.firstFlag .w25) 0; guiWinInit; guiWinAdd .w1; display : Code Unit).Always Refills :=
    refills_then (by simp) fun _ => refills_reset hd
  simp only [userMain25WinFun, window, drawButton, jumptoAutomatic, countUp, flashSet]
  repeat' first
    | with_reducible exact hout | with_reducible exact hkeys | intro _
    | with_reducible apply refills_compositional.bind | with_reducible apply refills_compositional.when
    | with_reducible exact refills_compositional.pure _ | split | exact refills_perform (by simp)

theorem refills_winFun {display : Code Unit} (hd : display.Always Refills) (w : Win) :
    (winFun display w).Always Refills := by
  by_cases hw : w = .w3 ∨ w = .w25
  · rcases hw with rfl | rfl
    · exact refills_userMain3WinFun
    · exact refills_userMain25WinFun hd
  · refine built_winFun refills_compositional hd fun o ho => refills_perform ?_
    rintro rfl
    exact hw (by simpa [winMay, ownMay, may, lcdMay] using ho)

theorem refills_guiWinDisplay (depth : Nat) : (guiWinDisplay depth).Always Refills := by
  induction depth with
  | zero => exact nofun
  | succ depth ih =>
    refine refills_then (by simp) fun top => ?_
    cases top with
    | none => exact nofun
    | some w => exact refills_then (by simp) fun _ => refills_winFun ih w

theorem refills_lcdTaskEntry (depth : Nat) : (lcdTaskEntry depth).Always Refills := by
  have hreq : ∀ o, requestMay o = true → (perform o : Code (Res o)).Always Refills := fun o ho =>
    refills_perform (by rintro rfl; cases ho)
  refine built_lcdTaskEntry refills_compositional (refills_guiWinDisplay depth) ?_ ?_ ?_
  · exact built_openLcdDisplay refills_compositional fun o ho => refills_perform (by rintro rfl; cases ho)
  · exact built_motoCycle refills_compositional hreq fun _ hp => refills_then (by simp) fun _ => hp
  · exact fun o ho => refills_perform (by rintro rfl; cases ho)

/-- Only the display and the timer thread reset the stack. -/
theorem resets_thread {t : Thread} (h : may t .guiWinInit = true) : t = .lcd ∨ t = .timer := by
  cases t <;> first | exact .inl rfl | exact .inr rfl | cases h

theorem body_refills (depth : Nat) (c : Call) : (body depth c).Always Refills := by
  by_cases hc : c.thread = .lcd ∨ c.thread = .timer
  · cases c with
    | expire x => exact refills_timerCallback x
    | expireSemJump => exact refills_perform (o := .semRelease .k2) (by simp)
    | enterLowPower => exact refills_enterLowPower
    | lcdTask => exact refills_lcdTaskEntry depth
    | motoCycle caller =>
      exact built_motoCycle refills_compositional (fun o ho => refills_perform (by rintro rfl; cases ho))
        fun _ hp => refills_then (by simp) fun _ => hp
    | scheduleSave k =>
      refine built_scheduleSave refills_compositional k fun o ho => refills_perform ?_
      rintro rfl
      cases k <;> cases ho
    | _ => simp [Call.thread] at hc
  · refine refills_of_all ((body_may depth c).mono fun o ho => ?_)
    rintro rfl
    exact hc (resets_thread ho)

/-! ### The invariant -/

/-- What every reachable configuration satisfies: a thread that has emptied the
stack is about to push the main window, and apart from that the stack has a bottom. -/
structure Founded (cfg : Conf) : Prop where
  refills : Left (fun _ _ p => Refills p) cfg
  may : Left (fun t _ p => ∀ o, p.head = some o → may t o = true) cfg
  next : ∀ t, resetting t cfg.trace = true → cfg.head t = some (.guiWinAdd .w1)
  fits : cfg.state.wins.length ≤ guiWinManageNum
  bottom : cfg.state.wins ≠ [] → cfg.state.wins.getLast? = some .w1
  empty : cfg.state.wins = [] → ∃ t, resetting t cfg.trace = true

section
variable {t u : Thread} {c : Call} {o : Op} {i : Input} {s : Device} {tr : Trace} {cfg : Conf}
  {allowed : Call → Bool} {depth : Nat}

theorem resetting_did_of_ne (h : u ≠ t) : resetting t (.did u o i :: tr) = resetting t tr := by
  cases o with
  | guiWinInit => simp [resetting, h]
  | guiWinAdd w => cases w <;> simp [resetting, h]
  | _ => rfl

/-- Neither an init nor a push of the main window. -/
theorem resetting_did (hi : o ≠ .guiWinInit) (ha : o ≠ .guiWinAdd .w1) :
    resetting t (.did u o i :: tr) = resetting t tr := by
  cases o with
  | guiWinInit => exact absurd rfl hi
  | guiWinAdd w => cases w <;> first | rfl | exact absurd rfl ha
  | _ => rfl

theorem Founded.head_may (h : Founded cfg) (ho : cfg.head t = some o) : Firmware.may t o = true :=
  Firmware.head_may h.may ho

theorem pushes_thread {w : Win} (h : Firmware.may t (.guiWinAdd w) = true) : t = .lcd ∨ (t = .timer ∧ w = .w1) := by
  cases t with
  | lcd => exact .inl rfl
  | timer => exact .inr ⟨rfl, by simpa [Firmware.may, timerMay] using h⟩
  | _ => cases h

/-- Whoever pushes onto the empty stack pushes the main window. -/
theorem Founded.refilled (h : Founded cfg) (hr : MainWinWhole cfg (.step t i)) {w : Win}
    (ho : cfg.head t = some (.guiWinAdd w)) (he : cfg.state.wins = []) : w = .w1 := by
  obtain ⟨u, hu⟩ := h.empty he
  by_cases htu : t = u
  · subst htu
    have := (h.next t hu).symm.trans ho
    simpa using this.symm
  · rcases pushes_thread (h.head_may ho) with rfl | ⟨-, hw⟩
    · rcases pushes_thread (h.head_may (h.next u hu)) with rfl | ⟨rfl, -⟩
      · exact absurd rfl htu
      · exact absurd hu (by simp [hr rfl])
    · exact hw

theorem Founded.push (h : Founded cfg) (hr : MainWinWhole cfg (.step t i)) {w : Win}
    (ho : cfg.head t = some (.guiWinAdd w)) {ws : List Win} (hws : ws = (exec t (.guiWinAdd w) i cfg.state).1.wins) :
    ws.length ≤ guiWinManageNum ∧ ws ≠ [] ∧ ws.getLast? = some .w1 := by
  subst hws
  have hfits := h.fits
  simp only [Firmware.exec]
  split
  · next hfull =>
    have hne : cfg.state.wins ≠ [] := by
      intro e
      simp [e, guiWinManageNum] at hfull
    exact ⟨hfits, hne, h.bottom hne⟩
  · next hroom =>
    refine ⟨?_, List.cons_ne_nil _ _, ?_⟩
    · rw [List.length_cons]
      omega
    · cases hs : cfg.state.wins with
      | nil => rw [h.refilled hr ho hs]; rfl
      | cons v rest =>
        have hlast := h.bottom (by simp [hs])
        rw [hs] at hlast
        rwa [List.getLast?_cons_cons]

theorem Founded.pop (h : Founded cfg) (hne : cfg.state.wins ≠ []) {ws : List Win}
    (hws : ws = (exec t .guiWinDeleteTop i cfg.state).1.wins) :
    ws.length ≤ guiWinManageNum ∧ ws ≠ [] ∧ ws.getLast? = some .w1 := by
  subst hws
  have hfits := h.fits
  have hlast := h.bottom hne
  simp only [Firmware.exec]
  split
  · exact ⟨hfits, hne, hlast⟩
  · next hlen =>
    rcases hs : cfg.state.wins with _ | ⟨v, _ | ⟨w, rest⟩⟩
    · exact absurd hs hne
    · simp [hs] at hlen
    · rw [hs] at hlast hfits
      rw [List.getLast?_cons_cons] at hlast
      refine ⟨?_, List.cons_ne_nil _ _, hlast⟩
      simp only [List.length_cons, List.tail_cons] at hfits ⊢
      omega

/-- Who is about to push the main window after a step. -/
theorem Founded.next_step {k : Res o → Code Unit} (h : Founded cfg) (ht : cfg.task t = some (c, .op o k)) {d : Device}
    (hu : resetting u (.did t o i :: cfg.trace) = true) :
    (⟨d, Function.update cfg.task t (settle c (k (Firmware.exec t o i cfg.state).2)), .did t o i :: cfg.trace⟩ : Conf).head u =
      some (.guiWinAdd .w1) := by
  by_cases hut : u = t
  · subst hut
    have hhead : cfg.head u = some o := by simp [Config.head, ht, Prog.head]
    simp only [Config.head, Function.update_self, head_settle]
    by_cases hi : o = .guiWinInit
    · subst hi
      exact (h.refills u c _ ht).1 k rfl
    · -- it was resetting before, so `o` is the push, which ends the reset
      by_cases ha : o = .guiWinAdd .w1
      · subst ha
        simp [resetting] at hu
      · rw [resetting_did hi ha] at hu
        exact absurd (Option.some.inj (hhead.symm.trans (h.next u hu))) ha
  · rw [resetting_did_of_ne (Ne.symm hut)] at hu
    simp only [Config.head, Function.update_of_ne hut]
    exact h.next u hu

theorem Founded.step {k : Res o → Code Unit} (h : Founded cfg) (hr : MainWinWhole cfg (.step t i))
    (ht : cfg.task t = some (c, .op o k)) : Founded ((board allowed depth).next cfg (.step t i)) := by
  have hrefills := h.refills.next (fun _ c _ _ => body_refills depth c) (.step t i) (M := board allowed depth)
  have hmay := h.may.next body_heads (.step t i) (M := board allowed depth)
  have hhead : cfg.head t = some o := by simp [Config.head, ht, Prog.head]
  rw [System.next_step ht] at hrefills hmay ⊢
  have hnext := fun u => h.next_step (u := u) (i := i) ht (d := (Firmware.exec t o i cfg.state).1)
  by_cases hi : o = .guiWinInit
  · subst hi
    refine ⟨hrefills, hmay, hnext, Nat.zero_le _, fun hne => absurd rfl hne, fun _ => ⟨t, ?_⟩⟩
    simp [resetting]
  by_cases ha : ∃ w, o = .guiWinAdd w
  · obtain ⟨w, rfl⟩ := ha
    obtain ⟨hfits, hne, hlast⟩ := h.push hr hhead (i := i) rfl
    exact ⟨hrefills, hmay, hnext, hfits, fun _ => hlast, fun e => absurd e hne⟩
  have hsame : ∀ u, resetting u (.did t o i :: cfg.trace) = resetting u cfg.trace := fun u =>
    resetting_did hi fun e => ha ⟨_, e⟩
  by_cases hd : o = .guiWinDeleteTop
  · subst hd
    by_cases hne : cfg.state.wins = []
    · have hs : (Firmware.exec t .guiWinDeleteTop i cfg.state).1.wins = [] := by simp [Firmware.exec, hne]
      obtain ⟨u, hu⟩ := h.empty hne
      refine ⟨hrefills, hmay, hnext, ?_, fun e => absurd hs e, fun _ => ⟨u, (hsame u).trans hu⟩⟩
      exact hs ▸ Nat.zero_le _
    · obtain ⟨hfits, hne', hlast⟩ := h.pop hne (t := t) (i := i) rfl
      exact ⟨hrefills, hmay, hnext, hfits, fun _ => hlast, fun e => absurd e hne'⟩
  · have hs : (Firmware.exec t o i cfg.state).1.wins = cfg.state.wins := exec_wins hi (fun w e => ha ⟨w, e⟩) hd i
    refine ⟨hrefills, hmay, hnext, ?_, fun hne => ?_, fun e => ?_⟩
    · exact hs ▸ h.fits
    · exact hs ▸ h.bottom (hs ▸ hne)
    · obtain ⟨u, hu⟩ := h.empty (hs ▸ e)
      exact ⟨u, (hsame u).trans hu⟩

theorem Founded.begin (h : Founded cfg) (ht : cfg.task t = none)
    (hready : (board allowed depth).ready t c cfg.state = true) :
    Founded ((board allowed depth).next cfg (.start t c)) := by
  have hrefills := h.refills.next (fun _ c _ _ => body_refills depth c) (.start t c) (M := board allowed depth)
  have hmay := h.may.next body_heads (.start t c) (M := board allowed depth)
  rw [System.next_start ht hready] at hrefills hmay ⊢
  have hs : (enter c cfg.state).wins = cfg.state.wins := enter_wins c cfg.state
  refine ⟨hrefills, hmay, fun u hu => ?_, hs ▸ h.fits, fun hne => hs ▸ h.bottom (hs ▸ hne), fun e => h.empty (hs ▸ e)⟩
  have hut : u ≠ t := by
    rintro rfl
    have := h.next u hu
    simp [Config.head, ht] at this
  simp only [Config.head, Function.update_of_ne hut]
  exact h.next u hu

end

theorem founded_next {allowed : Call → Bool} {depth : Nat} (cfg : Conf) (a : Act) (h : Founded cfg)
    (hr : MainWinWhole cfg a) : Founded ((board allowed depth).next cfg a) := by
  rcases System.next_cases (M := board allowed depth) cfg a with hsame | ⟨t, c, rfl, ht, hready⟩ | ⟨t, i, c, o, k, rfl, ht⟩
  · rw [hsame]
    exact h
  · exact h.begin ht hready
  · exact h.step hr ht

theorem founded_start (flash : Nat → Nat) : Founded (start flash) := by
  have hwins : (boot flash).wins = [.w1] := by
    refine boot_keep (f := Device.wins) (fun o s ho => ?_) flash
    cases o <;> first | rfl | cases ho
  refine ⟨Left.boot _ _, Left.boot _ _, fun t ht => ?_, ?_, fun _ => ?_, fun e => ?_⟩
  · exact absurd ht Bool.false_ne_true
  · simp [start, Config.boot, hwins, guiWinManageNum]
  · simp [start, Config.boot, hwins]
  · simp [start, Config.boot, hwins] at e

theorem Founded.mainBelow {cfg : Conf} (h : Founded cfg) (hr : ∀ t, resetting t cfg.trace = false) :
    MainBelow cfg.state := by
  have hne : cfg.state.wins ≠ [] := by
    intro e
    obtain ⟨t, ht⟩ := h.empty e
    exact absurd ((hr t).symm.trans ht) Bool.false_ne_true
  exact ⟨List.length_pos_iff.mpr hne, h.fits, h.bottom hne⟩

/-- Where the display thread is about to do something else than push the main window
and the timer thread is not resetting, nobody is. -/
theorem Founded.settled {cfg : Conf} (h : Founded cfg) {o : Op} (ho : cfg.head .lcd = some o)
    (ha : o ≠ .guiWinAdd .w1) (hr : resetting .timer cfg.trace = false) (t : Thread) :
    resetting t cfg.trace = false := by
  by_contra hn
  have ht : resetting t cfg.trace = true := by simpa using hn
  rcases pushes_thread (h.head_may (h.next t ht)) with rfl | ⟨rfl, -⟩
  · exact ha (Option.some.inj (ho.symm.trans (h.next .lcd ht)))
  · exact hn hr

/-- The main window is always at the bottom of the stack. -/
theorem main_at_bottom (allowed : Call → Bool) (depth : Nat) (flash : Nat → Nat) (as : List Act)
    (h : (board allowed depth).Admits MainWinWhole (start flash) as) :
    MainAtBottom ((board allowed depth).run (start flash) as) := by
  have hfounded := run_invariant Founded (fun cfg a h hr => founded_next cfg a h hr) (founded_start flash) h
  refine ⟨hfounded.mainBelow, fun ho hr e => ?_, fun ho hr => ?_⟩
  · have hbelow := hfounded.mainBelow (hfounded.settled ho (by simp) hr)
    have hpos := hbelow.1
    rw [List.head?_eq_none_iff.mp e] at hpos
    cases hpos
  · have hbelow := hfounded.mainBelow (hfounded.settled ho (by simp) hr)
    obtain ⟨hfits, hne, hlast⟩ := hfounded.pop (List.length_pos_iff.mp hbelow.1) (t := .lcd) (i := {}) rfl
    exact ⟨List.length_pos_iff.mpr hne, hfits, hlast⟩

/-- A key wakes the controller while the display thread is in the middle of a pass. -/
def wokenInPass : List Act :=
  .start .lcd .lcdTask :: turns .lcd {} 5 ++ .start .timer .enterLowPower :: turns .timer {level := true} 60 ++
    turns .lcd {} 60

theorem main_at_bottom_wokenInPass :
    (board (fun _ => true) 2).Admits MainWinWhole (start fun _ => 0) wokenInPass ∧
    MainAtBottom ((board (fun _ => true) 2).run (start fun _ => 0) wokenInPass) :=
  ⟨by decide +kernel, main_at_bottom (fun _ => true) 2 (fun _ => 0) wokenInPass (by decide +kernel)⟩

end Backwash.Lcd
