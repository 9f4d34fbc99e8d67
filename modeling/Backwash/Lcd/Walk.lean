import Backwash.Lcd.Guide

/-! Every window function leaves a tidy stack.

Each window is walked from its keys to its exits. There are few kinds of exit: the
flag is cleared and a window pushed or popped, in either order, the stack is reset
to the main menu, or the window below is displayed at once. -/
namespace Backwash.Lcd
open Concurrent Prog Firmware

namespace Guide
variable {X : Type} {V : Sight Res X} {lax : Win → Bool} {Γ : Guide V lax} {a : Stack} {w : Win}

section
variable (hs : Γ.special w = false)
include hs

/-- Operations that no view notices. -/
theorem Walk.inerts {α : Type} {p : Code α}
    (hp : p.All fun o => (keysMay w o && (inert o && Lcd.still o)) = true) :
    Γ.Walk (.keys w) p a fun _ b => b = a := by
  induction p with
  | ret v => exact Walk.ret rfl
  | op o k ih =>
    obtain ⟨hkeys, hinert⟩ := Bool.and_eq_true_iff.mp hp.1
    obtain ⟨hin, hst⟩ := Bool.and_eq_true_iff.mp hinert
    have hpush : ∀ v, o ≠ .guiWinAdd v := fun v e => by rw [e] at hst; cases hst
    refine (Walk.key hs hkeys (allowed_plain hpush (.inl hin))).bind fun r b hb => ?_
    rw [hb.1, Stack.after_still hst]
    exact ih r (hp.2 r)

/-- A drawn window begins with its keys. -/
theorem Walk.keyed {draw : Code Unit} {f : Keys → Code Unit} (h : Tidy lax a) (hw : a.wins.head? = some w)
    (hf : a.flag w ≠ 0)
    (hk : ∀ k b, Tidy lax b → b.wins.head? = some w → b.took .k2 = k.k2 →
      Γ.Walk (.keys w) (f k) b fun _ c => Tidy lax c) :
    Γ.Walk (.keys w) (Firmware.window w draw (Firmware.takeKeys >>= f)) a fun _ c => Tidy lax c := by
  exact Walk.window hs hf ((Walk.takeKeys hs).bind fun k b hb => hk k b (h.congr hb.1 hb.2.1) (hb.1 ▸ hw) hb.2.2)

/-- What a key does to the stack: nothing. -/
theorem Walk.unmoved {c : Prop} [Decidable c] {p : Code Unit} (hq : w = .w1 ∨ a.flag .w1 = 0)
    (hp : p.All fun o => (keysMay w o && Lcd.still o) = true) :
    Γ.Walk (.keys w) (Prog.when c p) a fun _ b => b = a :=
  Walk.when (fun _ => Walk.stills hs hq hp) fun _ => rfl

/-! The exits. -/

variable (h : Tidy lax a) (hw : a.wins.head? = some w) (h1 : w ≠ .w1)
include h hw h1

omit hs in
theorem quiet : w = .w1 ∨ a.flag .w1 = 0 := .inr (h.flag_main hw h1)

theorem exit_pop : Γ.Walk (.keys w) (guiWinDeleteTop >>= fun _ => store (.firstFlag w) 0) a fun _ c => Tidy lax c :=
  (Walk.pop hs).seq fun _ => (Walk.clear hs).mono fun _ _ hc => hc ▸ h.pop_set hw h1

/-- The flag is cleared after the stack has changed. -/
theorem exit_pop_left : Γ.Walk (.keys w) guiWinDeleteTop a fun _ c => Tidy lax (c.set w 0) :=
  (Walk.pop hs).mono fun _ _ hc => hc ▸ h.pop_set hw h1

omit hs h1 in
theorem undrawn {v : Win} (hvw : v ≠ w ∧ v ≠ .w27) : lax .w14 = true ∨ a.flag v = 0 := by
  by_contra hn
  rw [not_or] at hn
  rcases h.lit hw hn.2 with e | e
  · exact hvw.1 e
  · exact hn.1 (e.2.resolve_right hvw.2 ▸ e.1)

omit h1 in
theorem exit_push_left {v : Win} (ho : keysMay w (.guiWinAdd v) = true) (hv : covers v w = true)
    (hvw : v ≠ w ∧ v ≠ .w27) :
    Γ.Walk (.keys w) (guiWinAdd v) a fun _ c => Tidy lax (c.set w 0) :=
  (Walk.push hs ho (undrawn h hw hvw) (.inr ⟨w, hw, hv⟩)).mono fun _ _ hc => hc.1 ▸ h.push_set hw hv

/-! The flag has been cleared before. -/

omit h1 in
theorem exit_push {v : Win} (ho : keysMay w (.guiWinAdd v) = true) (hv : covers v w = true)
    (hvw : v ≠ w ∧ v ≠ .w27) :
    Γ.Walk (.keys w) (guiWinAdd v) (a.set w 0) fun _ c => Tidy lax c :=
  (Walk.push hs ho (undrawn (h.set_zero w) hw hvw) (.inr ⟨w, hw, hv⟩)).mono fun _ _ hc => hc.1 ▸ h.push_set hw hv

theorem exit_pop_cleared : Γ.Walk (.keys w) guiWinDeleteTop (a.set w 0) fun _ c => Tidy lax c :=
  (Walk.pop hs).mono fun _ _ hc => hc ▸ h.pop_set hw h1

omit h hw h1 in
theorem exit_clear (h : Tidy lax (a.set w 0)) : Γ.Walk (.keys w) (store (.firstFlag w) 0) a fun _ c => Tidy lax c :=
  (Walk.clear hs).mono fun _ _ hc => hc ▸ h

/-! The window below is displayed at once. -/

omit hs in
theorem display_below (hm : handsOver w = true) (h14 : Γ.special .w14 = false) (n : Nat) :
    Γ.Walk (.keys w) (guiWinDisplay n) a.pop fun _ b => Uncovers a.pop b := by
  obtain ⟨v, hhead, hover, htree⟩ := Stack.pop_below h.tree hw h1
  obtain ⟨hvw, hland⟩ := covers_handsOver hm hover
  have hv : ∀ u, a.pop.wins.head? = some u → u = v := fun u hu => Option.some.inj (hu.symm.trans hhead)
  refine walk_display h14 n htree (.inr (h.flag_main hw h1)) (fun u hu => ?_) fun u hu => ?_
  · rw [hv u hu]
    exact hland
  · rw [hv u hu]
    exact h.fresh hw hvw hland

theorem exit_display_left (hm : handsOver w = true) (h14 : Γ.special .w14 = false) (n : Nat) :
    Γ.Walk (.keys w) (guiWinDeleteTop >>= fun _ => guiWinDisplay n) a fun _ c => Tidy lax (c.set w 0) :=
  (Walk.pop hs).seq fun _ => (display_below h hw h1 hm h14 n).mono fun _ _ hb => h.shown_set hw hb rfl

theorem exit_display (hm : handsOver w = true) (h14 : Γ.special .w14 = false) (n : Nat) :
    Γ.Walk (.keys w) (guiWinDeleteTop >>= fun _ => guiWinDisplay n >>= fun _ => store (.firstFlag w) 0) a
      fun _ c => Tidy lax c :=
  (Walk.pop hs).seq fun _ => (display_below h hw h1 hm h14 n).bind fun _ _ hb => exit_clear hs (h.shown_set hw hb rfl)

/-- The flag has been cleared before. -/
theorem exit_display_cleared (hm : handsOver w = true) (h14 : Γ.special .w14 = false) (n : Nat) :
    Γ.Walk (.keys w) (guiWinDeleteTop >>= fun _ => guiWinDisplay n) (a.set w 0) fun _ c => Tidy lax c :=
  (Walk.pop hs).seq fun _ => (display_below (h.set_zero w) hw h1 hm h14 n).mono fun _ _ hb => h.shown hw hb rfl

end

/-! ### The windows -/

section
variable (hs : Γ.special w = false) (h : Tidy lax a) (hw : a.wins.head? = some w) (hf : a.flag w ≠ 0)
include hs h hw hf

omit hs h hw hf in
theorem keys_of_dial {o : Op} (hm : menu w = true) (ho : dialMay w o = true) : (keysMay w o && Lcd.still o) = true := by
  cases o with
  | store v n =>
    cases v with
    | weekTemp k | dayTemp k | enableTemp k =>
      obtain rfl : w = k.win := eq_of_beq ho
      cases k <;> rfl
    | nowButtonId => simp [keysMay, winMay, ownMay, may, lcdMay, Lcd.still, hm]
    | _ => first | rfl | cases ho
  | _ => first | rfl | cases ho

/-- An editor: only what K2 does has to be walked. -/
theorem walk_edits {p select : Code Unit} (h1 : w ≠ .w1) (hm : menu w = true) (hp : Edits w p select)
    (hselect : ∀ b, Tidy lax b → b.wins.head? = some w → Γ.Walk (.keys w) select b fun _ c => Tidy lax c) :
    Γ.Walk (.keys w) p a fun _ c => Tidy lax c := by
  obtain ⟨draw, up, down, rfl, -, hup, hdown⟩ := hp
  refine Walk.keyed hs h hw hf fun k b hb hwb _ => ?_
  have hq := quiet hb hwb h1
  refine (Walk.unmoved hs hq (hup.mono fun _ => keys_of_dial hm)).seq fun _ => ?_
  refine (Walk.unmoved hs hq (hdown.mono fun _ => keys_of_dial hm)).seq fun _ => ?_
  exact Walk.when (fun _ => hselect b hb hwb) fun _ => hb

theorem walk_alertWinFun (h1 : w ≠ .w1) : Γ.Walk (.keys w) (alertWinFun w) a fun _ c => Tidy lax c :=
  Walk.keyed hs h hw hf fun _ _ hb hwb _ => Walk.when (fun _ => exit_pop hs hb hwb h1) fun _ => hb

theorem walk_counterWinFun (hc : w = .w9 ∨ w = .w10 ∨ w = .w11 ∨ w = .w12) (c : Counter) (id : Nat)
    (x : Text) : Γ.Walk (.keys w) (counterWinFun w c id x) a fun _ c => Tidy lax c := by
  have h1 : w ≠ .w1 := by rcases hc with rfl | rfl | rfl | rfl <;> decide
  refine Walk.keyed hs h hw hf fun k b hb hwb _ => ?_
  refine (Walk.unmoved hs (quiet hb hwb h1) ?_).seq fun _ => ?_
  · have hnow : ∀ m, (keysMay w (.store .nowButtonId m) && still (.store .nowButtonId m)) = true := fun m => by
      rcases hc with rfl | rfl | rfl | rfl <;> rfl
    exact all_nextButton (P := fun o => (keysMay w o && Lcd.still o) = true) rfl hnow
      (fun _ _ => all_drawButton rfl rfl) 3 1
  refine Walk.when (fun _ => ?_) fun _ => hb
  have hleave := exit_pop_left hs hb hwb h1
  have hset : keysMay w (.efSet id 0) = true := by simp [keysMay, winMay, ownMay, may, lcdMay]
  refine Walk.skip hs (quiet hb hwb h1) rfl fun (m : Nat) => Walk.bind ?_ fun _ _ => exit_clear hs
  split
  · refine Walk.skip hs (quiet hb hwb h1) rfl fun _ => (Walk.stills hs (quiet hb hwb h1) ?_).seq fun _ => hleave
    exact All.bind (All.perform rfl) fun _ => All.bind (All.perform (Bool.and_eq_true_iff.mpr ⟨hset, rfl⟩)) fun _ =>
      All.perform (o := Op.mdelay 10) rfl
  · exact hleave
  · exact Walk.ret (hb.set_zero w)

end

section
variable (h : Tidy lax a)
include h

theorem walk_userMain2 (hs : Γ.special .w2 = false) (hw : a.wins.head? = some .w2) (hf : a.flag .w2 ≠ 0) :
    Γ.Walk (.keys .w2) userMain2WinFun a fun _ c => Tidy lax c := by
  refine Walk.keyed hs h hw hf fun k b hb hwb _ => ?_
  have hq := quiet hb hwb (by decide)
  have htoggle : toggleTwo.All fun o => (keysMay .w2 o && still o) = true :=
    built_toggleTwo (All.compositional _) (All.perform rfl) (fun _ _ => All.perform rfl)
      (fun _ _ _ => All.perform rfl) fun _ _ => All.perform rfl
  have hrequest : (motoCycle .userMain2WinFun).All fun o => (keysMay .w2 o && still o) = true := by
    refine built_motoCycle (All.compositional _) (fun o ho => All.perform ?_) fun _ hp => All.bind (All.perform rfl) fun _ => hp
    have hmay := winMay_of_requestMay ho
    cases o with
    | store v n => cases v <;> first | exact Bool.and_eq_true_iff.mpr ⟨Bool.and_eq_true_iff.mpr ⟨hmay, rfl⟩, rfl⟩ | cases ho
    | _ => first | exact Bool.and_eq_true_iff.mpr ⟨Bool.and_eq_true_iff.mpr ⟨hmay, rfl⟩, rfl⟩ | cases ho
  refine (Walk.unmoved hs hq htoggle).seq fun _ => (Walk.unmoved hs hq htoggle).seq fun _ => ?_
  refine Walk.when (fun _ => Walk.skip hs hq rfl fun (m : Nat) => Walk.ite (fun _ => ?_) fun _ => ?_) fun _ => hb
  · have hb0 := hb.set_zero .w2
    have hq0 := quiet hb0 hwb (by decide)
    refine (Walk.clear hs).seq fun _ => (Walk.stills hs hq0 ?_).seq fun _ => (Walk.stills hs hq0 hrequest).seq fun _ => ?_
    · exact all_countUp rfl (fun _ => rfl) fun _ => all_flashSet rfl rfl rfl
    exact exit_push hs hb hwb rfl rfl (by decide)
  · exact exit_pop hs hb hwb (by decide)

theorem walk_userMain8 (hs : Γ.special .w8 = false) (hw : a.wins.head? = some .w8) (hf : a.flag .w8 ≠ 0) :
    Γ.Walk (.keys .w8) userMain8WinFun a fun _ c => Tidy lax c := by
  refine Walk.keyed hs h hw hf fun k b hb hwb _ => ?_
  have hq := quiet hb hwb (by decide)
  refine (Walk.unmoved hs hq ?_).seq fun _ => (Walk.unmoved hs hq ?_).seq fun _ => ?_
  · exact all_previousButton (P := fun o => (keysMay .w8 o && Lcd.still o) = true) rfl (fun _ => rfl)
      (fun _ _ => all_drawButton rfl rfl) 3
  · exact all_nextButton (P := fun o => (keysMay .w8 o && Lcd.still o) = true) rfl (fun _ => rfl)
      (fun _ _ => all_drawButton rfl rfl) 4 0
  refine Walk.when (fun _ => Walk.skip hs hq rfl fun (m : Nat) => Walk.bind ?_ fun _ _ => exit_clear hs) fun _ => hb
  split
  all_goals
    first
    | exact exit_push_left hs hb hwb rfl rfl (by decide)
    | exact exit_pop_left hs hb hwb (by decide)
    | exact Walk.ret (hb.set_zero _)

theorem walk_userMain20 (hs : Γ.special .w20 = false) (hw : a.wins.head? = some .w20) (hf : a.flag .w20 ≠ 0) :
    Γ.Walk (.keys .w20) userMain20WinFun a fun _ c => Tidy lax c := by
  refine Walk.keyed hs h hw hf fun k b hb hwb _ => ?_
  have hq := quiet hb hwb (by decide)
  have hsave : ∀ n, Γ.Walk (.keys .w20) (saveLanguage n) b fun _ c => Tidy lax c := by
    intro n
    simp only [saveLanguage, flashSet, Prog.bind_assoc]
    iterate 5 refine Walk.skip hs hq rfl fun _ => ?_
    exact exit_pop hs hb hwb (by decide)
  refine (Walk.unmoved hs hq ?_).seq fun _ => (Walk.unmoved hs hq ?_).seq fun _ => ?_
  · exact all_nextButton (P := fun o => (keysMay .w20 o && Lcd.still o) = true) rfl (fun _ => rfl)
      (fun _ _ => all_drawButton rfl rfl) 3 0
  · exact all_previousButton (P := fun o => (keysMay .w20 o && Lcd.still o) = true) rfl (fun _ => rfl)
      (fun _ _ => all_drawButton rfl rfl) 2
  refine Walk.when (fun _ => Walk.skip hs hq rfl fun (m : Nat) => ?_) fun _ => hb
  split
  · exact hsave 0
  · exact hsave 1
  · exact exit_pop hs hb hwb (by decide)
  · exact Walk.ret hb

theorem walk_userMain21 (hs : Γ.special .w21 = false) (hw : a.wins.head? = some .w21) (hf : a.flag .w21 ≠ 0) :
    Γ.Walk (.keys .w21) userMain21WinFun a fun _ c => Tidy lax c := by
  refine Walk.keyed hs h hw hf fun k b hb hwb _ => ?_
  have hq := quiet hb hwb (by decide)
  refine (Walk.unmoved hs hq ?_).seq fun _ => (Walk.unmoved hs hq ?_).seq fun _ => ?_
  · simp only [decr]
    repeat' first | intro _ | with_reducible apply All.bind | with_reducible apply All.when | exact All.perform rfl
  · simp only [incr]
    repeat' first | intro _ | with_reducible apply All.bind | exact All.perform rfl
  refine Walk.when (fun _ => Walk.skip hs hq rfl fun (m : Nat) => Walk.bind ?_ fun _ _ => exit_clear hs) fun _ => hb
  exact Walk.ite (fun _ => exit_push_left hs hb hwb rfl rfl (by decide)) fun _ => exit_pop_left hs hb hwb (by decide)

/-- Window 23 leaves together with the window that asked for the password. -/
theorem walk_userMain23 (hs : Γ.special .w23 = false) (hw : a.wins.head? = some .w23) (hf : a.flag .w23 ≠ 0) :
    Γ.Walk (.keys .w23) userMain23WinFun a fun _ c => Tidy lax c := by
  have hq := quiet h hw (by decide)
  refine Walk.window hs hf ((Walk.stills hs hq ?_).seq fun (v : Nat) => ?_)
  · exact All.bind (All.perform rfl) fun _ => All.bind (All.perform rfl) fun _ => All.bind (All.perform rfl) fun _ => All.pure _
  refine Walk.skip hs hq rfl fun _ => Walk.skip hs hq rfl fun _ => (Walk.takeKeys hs).bind fun k b hb => ?_
  have hb' : Tidy lax b := h.congr hb.1 hb.2.1
  refine Walk.when (fun _ => (Walk.pop hs).seq fun _ => (Walk.pop hs).seq fun _ => exit_clear hs ?_) fun _ => hb'
  obtain ⟨v, hv, hover, htree⟩ := Stack.pop_below hb'.tree (hb.1 ▸ hw) (by decide)
  obtain rfl : v = .w21 := by simpa [covers] using hover
  obtain ⟨_, -, -, htree'⟩ := Stack.pop_below htree hv (by decide)
  exact hb'.clear (hb.1 ▸ hw) htree' (fun _ hu => Stack.flag_set_of_ne hu _ 0) (Stack.flag_set_self _ _ 0)

end

/-! ### The progress window -/

/-- Back to the main menu: nothing is drawn. -/
theorem Walk.reset {f : Unit → Code Unit} {Q : Unit → Stack → Prop} (hs : Γ.special w = false)
    (ho : (keysMay w .guiWinInit && keysMay w (.guiWinAdd .w1)) = true) (h1 : w ≠ .w1)
    (hlit : ∀ u, a.flag u ≠ 0 → u = w ∨ Stale lax u)
    (hf : ∀ c, c.wins = [.w1] → (∀ u, c.flag u ≠ 0 → Stale lax u) → Γ.Walk (.keys w) (f ()) c Q) :
    Γ.Walk (.keys w)
      (store (.firstFlag w) 0 >>= fun _ => guiWinInit >>= fun _ => guiWinAdd .w1 >>= fun u => f u) a Q := by
  obtain ⟨hinit, hadd⟩ := Bool.and_eq_true_iff.mp ho
  have hstale : ∀ u, (a.set w 0).flag u ≠ 0 → Stale lax u := by
    intro u hu
    by_cases huw : u = w
    · subst huw
      exact absurd (Stack.flag_set_self a _ 0) hu
    · rw [Stack.flag_set_of_ne huw] at hu
      exact (hlit u hu).resolve_left huw
  have hmain : ({a.set w 0 with wins := []} : Stack).flag .w1 = 0 := by
    by_contra hne
    rcases hstale _ hne with ⟨-, e | e⟩ <;> cases e
  refine (Walk.clear hs).seq fun _ => (Walk.init hs hinit).seq fun _ =>
    (Walk.push hs hadd (.inr hmain) (.inl ⟨rfl, rfl⟩)).bind fun _ c hc => ?_
  obtain ⟨rfl, -⟩ := hc
  exact hf _ rfl hstale

theorem walk_leaveProgress (hs : Γ.special .w3 = false) (hlit : ∀ u, a.flag u ≠ 0 → u = .w3 ∨ Stale lax u) :
    Γ.Walk (.keys .w3) leaveProgress a fun _ c => Tidy lax c ∧ ∀ u, c.flag u ≠ 0 → Stale lax u := by
  refine Walk.reset hs rfl (by decide) hlit fun c hc hstale => (Walk.inerts hs ?_).mono fun _ d hd => ?_
  · exact All.bind (All.perform rfl) fun _ => All.perform (o := Op.pinWrite .ledG true) rfl
  · subst hd
    exact ⟨⟨by rw [hc]; rfl, fun u hu => .inr (hstale u hu)⟩, hstale⟩

theorem walk_userMain3 (h : Tidy lax a) (hs : Γ.special .w3 = false) (hw : a.wins.head? = some .w3)
    (hf : a.flag .w3 ≠ 0) : Γ.Walk (.keys .w3) userMain3WinFun a fun _ c => Tidy lax c := by
  have hq := quiet h hw (by decide)
  have hstay : Tidy lax a ∧ ∀ u, a.flag u ≠ 0 → u = .w3 ∨ Stale lax u := ⟨h, fun u => h.lit hw⟩
  have hred : Γ.Walk (.keys .w3) redLight a fun _ c => c = a :=
    Walk.inerts hs (All.bind (All.perform rfl) fun _ => All.perform (o := Op.pinWrite .ledR false) rfl)
  have hshow : ∀ e, Γ.Walk (.keys .w3) (showOutcome e) a fun _ c =>
      Tidy lax c ∧ ∀ u, c.flag u ≠ 0 → u = .w3 ∨ Stale lax u := by
    intro e
    have hset : Γ.Walk (.keys .w3) (store .jumpFlag 1) a fun _ c => c = a := Walk.inerts hs (All.perform rfl)
    unfold showOutcome
    refine Walk.ite (fun _ => hset.mono fun _ _ hc => hc ▸ hstay) fun _ => ?_
    refine Walk.ite (fun _ => hred.seq fun _ => hset.mono fun _ _ hc => hc ▸ hstay) fun _ => ?_
    refine Walk.ite (fun _ => hset.seq fun _ => (Walk.inerts hs (All.perform rfl)).mono fun _ _ hc => hc ▸ hstay) fun _ => ?_
    refine Walk.ite (fun _ => hred.seq fun _ => hset.mono fun _ _ hc => hc ▸ hstay) fun _ => ?_
    refine Walk.ite (fun _ => ?_) fun _ => Walk.ret hstay
    refine (walk_leaveProgress hs hstay.2).bind fun _ b hb => (Walk.inerts hs (All.perform rfl)).mono fun _ c hc => ?_
    exact hc ▸ ⟨hb.1, fun u hu => .inr (hb.2 u hu)⟩
  refine Walk.window hs hf (Walk.skip hs hq rfl fun (e : JumpBits) => ?_)
  refine (Walk.when (fun _ => hshow e) fun _ => hstay).bind fun _ b hb => (Walk.takeKeys hs).bind fun k c hc => ?_
  have hc' : Tidy lax c ∧ ∀ u, c.flag u ≠ 0 → u = .w3 ∨ Stale lax u := by
    refine ⟨⟨hc.1 ▸ hb.1.tree, fun u hu => hc.1 ▸ hb.1.flag u (hc.2.1 ▸ hu)⟩, fun u hu => hb.2 u (hc.2.1 ▸ hu)⟩
  refine (Walk.inerts hs (All.perform (o := Op.load .jumpFlag) rfl)).seq fun (j : Nat) => ?_
  exact Walk.when (fun _ => (walk_leaveProgress hs hc'.2).mono fun _ _ hd => hd.1) fun _ => hc'.1

/-! ### Windows that display the one below -/

section
variable (h14 : Γ.special .w14 = false) (n : Nat) (h : Tidy lax a)
include h14 h

theorem walk_infoWinFun (hs : Γ.special w = false) (hw : a.wins.head? = some w) (hf : a.flag w ≠ 0) (flags : List Nat)
    (h1 : w ≠ .w1) (hm : handsOver w = true) :
    Γ.Walk (.keys w) (infoWinFun (guiWinDisplay n) w flags) a fun _ c => Tidy lax c :=
  Walk.keyed hs h hw hf fun _ _ hb hwb _ => Walk.when (fun _ => exit_display hs hb hwb h1 hm h14 n) fun _ => hb

theorem walk_userMain6 (hs : Γ.special .w6 = false) (hw : a.wins.head? = some .w6) (hf : a.flag .w6 ≠ 0) :
    Γ.Walk (.keys .w6) (userMain6WinFun (guiWinDisplay n)) a fun _ c => Tidy lax c := by
  refine walk_edits hs h hw hf (by decide) rfl (edits_userMain6WinFun _) fun b hb hwb => ?_
  have hq0 := quiet (hb.set_zero .w6) hwb (by decide)
  refine (Walk.clear hs).seq fun _ => ?_
  simp only [flashSet, Prog.bind_assoc]
  iterate 6 refine Walk.skip hs hq0 rfl fun _ => ?_
  exact exit_display_cleared hs hb hwb (by decide) rfl h14 n

theorem walk_userMain7 (hs : Γ.special .w7 = false) (hw : a.wins.head? = some .w7) (hf : a.flag .w7 ≠ 0) :
    Γ.Walk (.keys .w7) (userMain7WinFun (guiWinDisplay n)) a fun _ c => Tidy lax c := by
  refine Walk.keyed hs h hw hf fun k b hb hwb _ => ?_
  have hq := quiet hb hwb (by decide)
  refine (Walk.unmoved hs hq ?_).seq fun _ => (Walk.unmoved hs hq ?_).seq fun _ => ?_
  · exact all_previousButton (P := fun o => (keysMay .w7 o && Lcd.still o) = true) rfl (fun _ => rfl)
      (fun _ _ => all_drawButton rfl rfl) 3
  · exact all_nextButton (P := fun o => (keysMay .w7 o && Lcd.still o) = true) rfl (fun _ => rfl)
      (fun _ _ => all_drawButton rfl rfl) 4 0
  refine Walk.when (fun _ => Walk.skip hs hq rfl fun (m : Nat) => Walk.bind ?_ fun _ _ => exit_clear hs) fun _ => hb
  split
  · exact exit_push_left hs hb hwb rfl rfl (by decide)
  · exact exit_push_left hs hb hwb rfl rfl (by decide)
  · exact exit_push_left hs hb hwb rfl rfl (by decide)
  · exact exit_display_left hs hb hwb (by decide) rfl h14 n
  · exact Walk.ret (hb.set_zero _)

theorem walk_userMain15 (hs : Γ.special .w15 = false) (hw : a.wins.head? = some .w15) (hf : a.flag .w15 ≠ 0) :
    Γ.Walk (.keys .w15) (userMain15WinFun (guiWinDisplay n)) a fun _ c => Tidy lax c := by
  refine walk_edits hs h hw hf (by decide) rfl (edits_userMain15WinFun _) fun b hb hwb => ?_
  have hq := quiet hb hwb (by decide)
  simp only [flashSet, Prog.bind_assoc]
  iterate 6 refine Walk.skip hs hq rfl fun _ => ?_
  exact exit_display hs hb hwb (by decide) rfl h14 n

theorem walk_numberWinFun (hn : w = .w16 ∨ w = .w17) (hs : Γ.special w = false) (hw : a.wins.head? = some w)
    (hf : a.flag w ≠ 0) : Γ.Walk (.keys w) (winFun (guiWinDisplay n) w) a fun _ c => Tidy lax c := by
  rcases hn with rfl | rfl
  · refine walk_edits hs h hw hf (by decide) rfl (edits_userMain16WinFun _) fun b hb hwb => ?_
    have hq := quiet hb hwb (by decide)
    refine Walk.skip hs hq rfl fun (m : Nat) => ?_
    split
    · exact (Walk.stills hs hq (All.bind (All.perform rfl) fun _ => All.bind (all_drawButton rfl rfl) fun _ =>
        all_drawButton rfl rfl)).mono fun _ _ hc => hc ▸ hb
    · simp only [flashSet, Prog.bind_assoc]
      iterate 6 refine Walk.skip hs hq rfl fun _ => ?_
      exact exit_display hs hb hwb (by decide) rfl h14 n
    · exact exit_display hs hb hwb (by decide) rfl h14 n
    · exact Walk.ret hb
  · refine walk_edits hs h hw hf (by decide) rfl (edits_userMain17WinFun _) fun b hb hwb => ?_
    have hq := quiet hb hwb (by decide)
    refine Walk.skip hs hq rfl fun (m : Nat) => ?_
    split
    · exact (Walk.stills hs hq (All.bind (All.perform rfl) fun _ => All.bind (all_drawButton rfl rfl) fun _ =>
        all_drawButton rfl rfl)).mono fun _ _ hc => hc ▸ hb
    · simp only [flashSet, Prog.bind_assoc]
      iterate 6 refine Walk.skip hs hq rfl fun _ => ?_
      exact exit_display hs hb hwb (by decide) rfl h14 n
    · exact exit_display hs hb hwb (by decide) rfl h14 n
    · exact Walk.ret hb

theorem walk_userMain19 (hs : Γ.special .w19 = false) (hw : a.wins.head? = some .w19) (hf : a.flag .w19 ≠ 0) :
    Γ.Walk (.keys .w19) (userMain19WinFun (guiWinDisplay n)) a fun _ c => Tidy lax c := by
  refine walk_edits hs h hw hf (by decide) rfl (edits_userMain19WinFun _) fun b hb hwb => ?_
  have hq := quiet hb hwb (by decide)
  refine Walk.skip hs hq rfl fun (m : Nat) => ?_
  split
  · have hreset : flashFactory.All fun o => (keysMay .w19 o && still o) = true := by
      refine All.bind (All.perform rfl) fun _ => (All.compositional _).foldr (fun i => ?_) _
      refine All.bind (All.perform rfl) fun _ => All.bind (All.perform ?_) fun _ => All.perform (o := Op.mdelay 10) rfl
      simp [keysMay, winMay, ownMay, may, lcdMay, still]
    refine (Walk.stills hs hq hreset).seq fun _ => ?_
    exact (Walk.inerts hs (All.perform (o := Op.cpuReset) rfl)).mono fun _ _ hc => hc ▸ hb
  · exact exit_display hs hb hwb (by decide) rfl h14 n
  · exact Walk.ret hb

/-- The schedule editors. -/
theorem walk_scheduleWinFun (k : Schedule) (hs : Γ.special k.win = false) (hw : a.wins.head? = some k.win)
    (hf : a.flag k.win ≠ 0) : Γ.Walk (.keys k.win) (scheduleWinFun (guiWinDisplay n) k) a fun _ c => Tidy lax c := by
  have h1 : k.win ≠ .w1 := by cases k <;> decide
  refine walk_edits hs h hw hf h1 (by cases k <;> rfl) (edits_scheduleWinFun k _) fun b hb hwb => ?_
  have hq := quiet hb hwb h1
  have hq0 := quiet (hb.set_zero k.win) hwb h1
  have hsave : Γ.Walk (.keys k.win) (scheduleSave k) b fun _ c => Tidy lax c := by
    refine (Walk.clear hs).seq fun _ => ?_
    simp only [flashSet, Prog.bind_assoc]
    cases k
    all_goals
      iterate 3 refine Walk.skip hs hq0 rfl fun _ => ?_
      refine (Walk.unmoved hs hq0 (by exact All.perform rfl)).seq fun _ => ?_
      iterate 19 refine Walk.skip hs hq0 rfl fun _ => ?_
      exact exit_pop_cleared hs hb hwb h1
  refine Walk.skip hs hq (by cases k <;> rfl) fun (e : Nat) => Walk.ite (fun _ => ?_) fun _ => ?_
  · exact Walk.skip hs hq (by cases k <;> rfl) fun _ => exit_display hs hb hwb h1 (by cases k <;> rfl) h14 n
  refine Walk.skip hs hq (by cases k <;> rfl) fun (m : Nat) => ?_
  have hnext : ∀ i j l, Γ.Walk (.keys k.win)
      (do drawButton 1 i; drawButton 2 j; drawButton 3 l; incr .nowSetting) b fun _ c => Tidy lax c := by
    intro i j l
    refine (Walk.stills hs hq ?_).mono fun _ _ hc => hc ▸ hb
    simp only [drawButton, incr]
    cases k <;> repeat' first | intro _ | with_reducible apply All.bind | exact All.perform rfl
  split
  · exact hnext 0 1 0
  · exact hnext 0 0 1
  · exact hsave
  · exact Walk.ret hb

theorem walk_userMain25 (hs : Γ.special .w25 = false) (hw : a.wins.head? = some .w25) (hf : a.flag .w25 ≠ 0) :
    Γ.Walk (.keys .w25) (userMain25WinFun (guiWinDisplay n)) a fun _ c => Tidy lax c := by
  refine Walk.keyed hs h hw hf fun k b hb hwb _ => ?_
  refine (Walk.when (Q := fun _ c => Tidy lax c) (fun _ => ?_) fun _ => hb).bind fun _ c hc => ?_
  · refine Walk.reset hs rfl (by decide) (fun u => hb.lit hwb) fun c hc hstale => ?_
    have hmain : c.flag .w1 = 0 := by
      by_contra hne
      rcases hstale _ hne with ⟨-, e | e⟩ <;> cases e
    have hv : ∀ v, c.wins.head? = some v → v = .w1 := fun v hv => by
      rw [hc] at hv
      exact (Option.some.inj hv).symm
    refine (walk_display h14 n (by rw [hc]; rfl) (.inr hmain) (fun v e => ?_) fun v e => ?_).mono fun _ d hd => ?_
    · rw [hv v e]
      rfl
    · rw [hv v e]
      exact .inl hmain
    · exact ⟨hd.tree, fun u hu => (hd.flag u hu).imp And.left (hstale u)⟩
  · refine Walk.when (fun _ => (Walk.inerts hs ?_).mono fun _ _ hd => hd ▸ hc) fun _ => hc
    exact All.bind (All.perform rfl) fun _ =>
      All.bind (all_countUp rfl (fun _ => rfl) fun _ => all_flashSet rfl rfl rfl) fun _ => All.perform rfl

end

/-! ### The main menu -/

section
variable (hs : Γ.special .w1 = false)
include hs

/-- Where K2 finds the main menu: on top, or, after a long press, under the settings
menu. -/
def Opens (lax : Win → Bool) (k2 : Bool) (d : Stack) : Prop :=
  Tidy lax d ∧ (k2 = true → d.wins.head? = some .w1 ∨
    (lax .w14 = true ∧ (∃ v, d.wins.head? = some v ∧ basement v = true) ∧ ∀ u, d.flag u ≠ 0 → Stale lax u))

omit hs in
theorem Opens.set_zero {k2 : Bool} {d : Stack} (h : Opens lax k2 d) : Opens lax k2 (d.set .w1 0) := by
  refine ⟨h.1.set_zero .w1, fun hk => (h.2 hk).imp_right fun ⟨hl, hv, hf⟩ => ⟨hl, hv, fun u hu => hf u fun e => hu ?_⟩⟩
  by_cases hu1 : u = .w1
  · subst hu1
    exact Stack.flag_set_self d _ 0
  · rw [Stack.flag_set_of_ne hu1, e]

theorem walk_k2Long (h14 : Γ.special .w14 = false) (n : Nat) (h : Tidy lax a) (hw : a.wins.head? = some .w1) :
    Γ.Walk (.keys .w1) (do store (.firstFlag .w1) 0; guiWinAdd .w14; guiWinDisplay n; keyStatuses) a
      fun k d => Opens lax k.k2 d := by
  have hundrawn : lax .w14 = true ∨ (a.set .w1 0).flag .w14 = 0 := undrawn (h.set_zero .w1) hw (by decide)
  have hwins : ((a.set .w1 0).push .w14).wins = [.w14, .w1] := Stack.wins_settings h.tree hw
  have htree : Tree ((a.set .w1 0).push .w14).wins := by
    rw [hwins]
    exact ⟨rfl, rfl⟩
  have hhead : ((a.set .w1 0).push .w14).wins.head? = some .w14 := by rw [hwins]; rfl
  refine (Walk.clear hs).seq fun _ => (Walk.push hs rfl hundrawn (.inr ⟨.w1, hw, rfl⟩)).bind fun _ c hc => ?_
  obtain ⟨rfl, hlax⟩ := hc
  refine (walk_display_took h14 n htree (.inr (Stack.flag_set_self a .w1 0)) (fun v hv => ?_) fun v hv => ?_).bind
    fun _ d ⟨hd, htook⟩ => (Walk.keyStatuses hs).mono fun k e he => ?_
  · rw [Option.some.inj (hv.symm.trans hhead)]
    rfl
  · obtain rfl : v = .w14 := Option.some.inj (hv.symm.trans hhead)
    exact hundrawn.symm.imp_right fun e => ⟨e, rfl⟩
  obtain ⟨rfl, hk⟩ := he
  refine ⟨h.shown hw hd rfl, fun hk2 => .inr ?_⟩
  -- without K2 in the pass of the main menu, the settings menu has only drawn itself
  have hl : lax .w14 = true := (hlax rfl).elim id fun h2 => htook.resolve_right fun e => by
    rw [hk, e, Stack.took_push, h2] at hk2
    cases hk2
  refine ⟨hl, ?_, fun u hu => ?_⟩
  · rcases hd.top with e | e
    · exact ⟨.w14, e.trans hhead, rfl⟩
    · exact e
  · rcases hd.flag u hu with ⟨-, e⟩ | e
    · obtain rfl : u = .w14 := Option.some.inj (e.symm.trans hhead)
      exact ⟨hl, .inl rfl⟩
    · refine ((h.set_zero .w1).lit hw e).resolve_left fun hu1 => ?_
      subst hu1
      exact e (Stack.flag_set_self a .w1 0)

theorem walk_userMain1Select {d : Stack} (h : Opens lax true d) :
    Γ.Walk (.keys .w1) userMain1Select d fun _ c => Tidy lax c := by
  have hpush : ∀ v, keysMay .w1 (.guiWinAdd v) = true → v ≠ .w1 ∧ v ≠ .w27 → (∀ l, basement l = true → covers v l = true) →
      Γ.Walk (.keys .w1) (guiWinAdd v) d fun _ c => Tidy lax (c.set .w1 0) := by
    intro v ho hv hover
    rcases h.2 rfl with hw | ⟨hl, ⟨l, hw, hb⟩, hstale⟩
    · exact exit_push_left hs h.1 hw ho (hover _ rfl) hv
    · refine (Walk.push hs ho (.inl hl) (.inr ⟨l, hw, hover l hb⟩)).mono fun _ c hc => ?_
      obtain ⟨rfl, -⟩ := hc
      refine ⟨Stack.tree_push h.1.tree hw (hover l hb), fun u hu => .inr (hstale u fun e => hu ?_)⟩
      by_cases hu1 : u = .w1
      · subst hu1
        exact Stack.flag_set_self _ _ 0
      · rw [Stack.flag_set_of_ne hu1]
        exact e
  refine Walk.skip hs (.inl rfl) rfl fun _ => Walk.skip hs (.inl rfl) rfl fun (m : Nat) => ?_
  refine Walk.bind ?_ fun _ _ => exit_clear hs
  split
  all_goals first | exact hpush _ rfl (by decide) (fun _ hb => hb) | exact Walk.ret (h.1.set_zero .w1)

theorem walk_userMain1 (h14 : Γ.special .w14 = false) (n : Nat) (h : Tidy lax a) (hw : a.wins.head? = some .w1)
    (hf : a.flag .w1 ≠ 0) : Γ.Walk (.keys .w1) (userMain1WinFun (guiWinDisplay n)) a fun _ c => Tidy lax c := by
  refine Walk.window hs hf (Walk.skip hs (.inl rfl) rfl fun _ => (Walk.takeKeys hs).bind fun k b hb => ?_)
  have hb' : Tidy lax b := h.congr hb.1 hb.2.1
  have hwb : b.wins.head? = some .w1 := hb.1 ▸ hw
  have hmove : ∀ {k2 : Bool} {c : Prop} [Decidable c] {p : Code Unit} (d : Stack), Opens lax k2 d →
      (p.All fun o => (keysMay .w1 o && (still o || o == .store (.firstFlag .w1) 0)) = true) →
      Γ.Walk (.keys .w1) (Prog.when c p) d fun _ e => Opens lax k2 e := by
    intro k2 c _ p d hd hp
    refine Walk.when (fun _ => (Walk.clears hs (.inl rfl) hp).mono fun _ e he => ?_) fun _ => hd
    rcases he with rfl | rfl
    · exact hd
    · exact hd.set_zero
  refine (Walk.ite (fun _ => walk_k2Long hs h14 n hb' hwb) fun _ => Walk.ret ⟨hb', fun _ => .inl hwb⟩).bind fun k c hc => ?_
  refine (hmove c hc ?_).bind fun _ d hd => (hmove d hd ?_).bind fun _ e he => ?_
  · unfold userMain1Up drawNowButton drawButton decr
    repeat' first
      | intro _ | with_reducible apply All.bind | split | exact All.perform rfl
  · unfold userMain1Down drawNowButton drawButton incr
    repeat' first
      | intro _ | with_reducible apply All.bind | split | exact All.perform rfl
  · refine Walk.when (fun hk => walk_userMain1Select hs ?_) fun _ => he.1
    rwa [hk] at he

end

/-! ### Every window -/

theorem walk_winFun (h14 : Γ.special .w14 = false) (n : Nat) (hs : Γ.special w = false) (h : Tidy lax a)
    (hw : a.wins.head? = some w) (hf : a.flag w ≠ 0) :
    Γ.Walk (.keys w) (winFun (guiWinDisplay n) w) a fun _ c => Tidy lax c := by
  cases w
  case w1 => exact walk_userMain1 hs h14 n h hw hf
  case w2 => exact walk_userMain2 h hs hw hf
  case w3 => exact walk_userMain3 h hs hw hf
  case w4 => exact walk_scheduleWinFun h14 n h .reminder hs hw hf
  case w5 => exact walk_scheduleWinFun h14 n h .automatic hs hw hf
  case w6 => exact walk_userMain6 h14 n h hs hw hf
  case w7 => exact walk_userMain7 h14 n h hs hw hf
  case w8 => exact walk_userMain8 h hs hw hf
  case w9 => exact walk_counterWinFun hs h hw hf (.inl rfl) .manual 8 .manualString
  case w10 => exact walk_counterWinFun hs h hw hf (.inr (.inl rfl)) .automatic 9 .automaticString
  case w11 => exact walk_counterWinFun hs h hw hf (.inr (.inr (.inl rfl))) .deltapress 10 .deltaString
  case w12 => exact walk_counterWinFun hs h hw hf (.inr (.inr (.inr rfl))) .error 11 .errorString
  case w13 => exact walk_infoWinFun h14 n h hs hw hf _ (by decide) rfl
  case w14 =>
    have hflags : lax .w14 = true ∨ ∀ u, u ≠ .w14 → u ≠ .w27 → a.flag u = 0 := by
      cases hl : lax .w14 with
      | true => exact .inl rfl
      | false => exact .inr fun u hu h27 => (undrawn h hw ⟨hu, h27⟩).resolve_left (by rw [hl]; decide)
    refine (walk_userMain14 h14 (guiWinDisplay n) h.tree hw hf (h.flag_main hw (by decide)) hflags).mono fun _ b hb => ?_
    exact hb.tidy h hw
  case w15 => exact walk_userMain15 h14 n h hs hw hf
  case w16 => exact walk_numberWinFun h14 n h (.inl rfl) hs hw hf
  case w17 => exact walk_numberWinFun h14 n h (.inr rfl) hs hw hf
  case w18 => exact walk_infoWinFun h14 n h hs hw hf _ (by decide) rfl
  case w19 => exact walk_userMain19 h14 n h hs hw hf
  case w20 => exact walk_userMain20 h hs hw hf
  case w21 => exact walk_userMain21 h hs hw hf
  case w23 => exact walk_userMain23 h hs hw hf
  case w25 => exact walk_userMain25 h14 n h hs hw hf
  case w26 => exact walk_alertWinFun hs h hw hf (by decide)
  case w27 => exact walk_alertWinFun hs h hw hf (by decide)
  -- windows 22 and 24 are never pushed
  all_goals
    obtain ⟨v, -, -, hover, -⟩ := h.tree.below hw (by decide)
    exact absurd hover (by simp [covers])

/-- A window that is entered from the loop leaves a tidy stack behind. -/
theorem winFun_tidy (h14 : Γ.special .w14 = false) (n : Nat) (hs : Γ.special w = false) {x : X}
    (hg : Γ.Held (.draw w) x) (h : Tidy lax (Γ.stack x)) (hw : (Γ.stack x).wins.head? = some w) :
    V.Run (winFun (guiWinDisplay n) w) x fun _ y => Γ.Held (.keys w) y ∧ Tidy lax (Γ.stack y) := by
  by_cases hf : (Γ.stack x).flag w = 0
  · refine (winFun_draw (guiWinDisplay n) hg hf).mono fun _ y hy => ⟨Γ.turn hy.1, ?_⟩
    rcases hy.2 with e | e
    · rw [e]
      exact h
    · rw [e]
      exact h.set_top hw 1
  · exact walk_winFun h14 n hs h hw hf x rfl (Γ.turn hg)

end Guide

/-! ### Requests -/

/-- What a pass does outside the window functions, short of the stack and the flags. -/
def asideMay (o : Op) : Bool :=
  (taskMay o || openMay o || requestMay o || o == .guiTop || o == .mark (.motoCycle .lcdtoBackwash)) &&
    (inert o && still o)

theorem asideMay_of_openMay {o : Op} (h : openMay o = true) : asideMay o = true := by
  have hquiet : (inert o && still o) = true := by
    cases o with
    | store v n => cases v <;> first | rfl | cases h
    | _ => first | rfl | cases h
  simp [asideMay, h, hquiet]

theorem asideMay_of_requestMay {o : Op} (h : requestMay o = true) : asideMay o = true := by
  have hquiet : (inert o && still o) = true := by
    cases o with
    | store v n => cases v <;> first | rfl | cases h
    | _ => first | rfl | cases h
  simp [asideMay, h, hquiet]

/-- What a property keeps while the requests are served. -/
structure Service {X : Type} (V : Sight Res X) (lax : Win → Bool) (stack : X → Stack) (H : X → Prop) : Prop where
  stack_after : ∀ (o : Op) (r : Res o) (x : X), stack (V.after o r x) = (stack x).after o r
  stack_can : ∀ {o : Op} {r : Res o} {x : X}, V.can o x r → (stack x).can o r
  aside : ∀ {o : Op} {x : X} {r : Res o}, asideMay o = true → H x → V.can o x r →
    V.Safe (V.after o r x) ∧ H (V.after o r x)
  clear : ∀ {w : Win} {x : X}, w = .w3 ∨ w = .w25 → H x → V.can (.store (.firstFlag w) 0) x () →
    V.Safe (V.after (.store (.firstFlag w) 0) () x) ∧ H (V.after (.store (.firstFlag w) 0) () x)
  wipe : ∀ {x : X}, H x → V.can .memsetFirstFlag x () →
    V.Safe (V.after .memsetFirstFlag () x) ∧ H (V.after .memsetFirstFlag () x) ∧
      (lax .w27 = true ∨ (stack x).flag .w27 = 0)
  push : ∀ {w : Win} {x : X}, w = .w3 ∨ w = .w25 → (stack x).flag w = 0 → H x → V.can (.guiWinAdd w) x () →
    V.Safe (V.after (.guiWinAdd w) () x) ∧ H (V.after (.guiWinAdd w) () x)
  alert : ∀ {w : Win} {x : X}, w = .w26 ∨ w = .w27 → H x →
    V.Run (guiWinAdd w >>= fun _ => memsetFirstFlag) x fun _ y =>
      H y ∧ stack y = ((stack x).push w).wipe ∧ (lax .w27 = true ∨ (stack x).flag .w27 = 0)

namespace Service
variable {X : Type} {V : Sight Res X} {lax : Win → Bool} {stack : X → Stack} {H : X → Prop} (S : Service V lax stack H)
include S

theorem run_aside {α : Type} {p : Code α} (hp : p.All fun o => asideMay o = true) :
    ∀ x, H x ∧ Tidy lax (stack x) → V.Run p x fun _ y => H y ∧ Tidy lax (stack y) := by
  intro x hx
  refine Sight.Run.all (hp.mono fun o ho y r hy hcan => ?_) hx
  obtain ⟨hsafe, hH⟩ := S.aside ho hy.1 hcan
  refine ⟨hsafe, hH, ?_⟩
  rw [S.stack_after, Stack.after_still (Bool.and_eq_true_iff.mp (Bool.and_eq_true_iff.mp ho).2).2]
  exact hy.2

theorem run_push {w : Win} (hw : w = .w3 ∨ w = .w25) {x : X} (hx : H x ∧ Tidy lax (stack x)) :
    V.Run (do memsetFirstFlag; guiWinAdd w) x fun _ y => H y ∧ Tidy lax (stack y) := by
  refine Sight.Run.bind (R := fun _ y => H y ∧ Tidy lax (stack y) ∧ ∀ u, (stack y).flag u ≠ 0 → Stale lax u)
    (Sight.Run.perform fun _ hcan => ?_) fun _ y hy => Sight.Run.perform fun _ hcan => ?_
  · obtain ⟨hsafe, hH, h27⟩ := S.wipe hx.1 hcan
    refine ⟨hsafe, hH, ?_⟩
    rw [S.stack_after]
    exact hx.2.wipe h27
  · have hflag : (stack y).flag w = 0 := by
      by_contra hne
      rcases hy.2.2 w hne with ⟨-, e | e⟩ <;> rcases hw with rfl | rfl <;> cases e
    obtain ⟨hsafe, hH⟩ := S.push hw hflag hy.1 hcan
    refine ⟨hsafe, hH, ?_⟩
    rw [S.stack_after]
    exact hy.2.1.push_wiped (b := (stack y).push w) hy.2.2 rfl (by rcases hw with rfl | rfl <;> rfl)

theorem run_clear {w : Win} (hw : w = .w3 ∨ w = .w25) {x : X} (hx : H x ∧ Tidy lax (stack x)) :
    V.Run (store (.firstFlag w) 0) x fun _ y => H y ∧ Tidy lax (stack y) := by
  refine Sight.Run.perform fun _ hcan => ?_
  obtain ⟨hsafe, hH⟩ := S.clear hw hx.1 hcan
  refine ⟨hsafe, hH, ?_⟩
  rw [S.stack_after]
  exact hx.2.set_zero w

/-- A display keeps the stack tidy if every window function does. -/
theorem run_display (depth : Nat) (hwin : ∀ n w x, H x ∧ Tidy lax (stack x) → (stack x).wins.head? = some w →
      V.Run (mark (.winFun w) >>= fun _ => winFun (guiWinDisplay n) w) x fun _ y => H y ∧ Tidy lax (stack y)) :
    ∀ x, H x ∧ Tidy lax (stack x) → V.Run (guiWinDisplay depth) x fun _ y => H y ∧ Tidy lax (stack y) := by
  intro x hx
  cases depth with
  | zero => exact hx
  | succ n =>
    obtain ⟨w, hw⟩ := hx.2.tree.top
    refine Sight.Run.bind (R := fun top y => top = some w ∧ (H y ∧ Tidy lax (stack y)) ∧ stack y = stack x)
      (Sight.Run.perform fun r hcan => ?_) fun top y hy => ?_
    · obtain ⟨hsafe, hH⟩ := S.aside rfl hx.1 hcan
      have hstack : stack (V.after .guiTop r x) = stack x := S.stack_after .guiTop r x
      have hr : r = (stack x).wins.head? := S.stack_can hcan
      exact ⟨hsafe, hr.trans hw, ⟨hH, by rw [hstack]; exact hx.2⟩, hstack⟩
    obtain ⟨rfl, hy', hstack⟩ := hy
    exact hwin n w y hy' (by rw [hstack, hw])

/-- A pass of the display thread keeps the stack tidy if its display does. -/
theorem run_pass {depth : Nat} (hdisplay : ∀ x, H x ∧ Tidy lax (stack x) →
      V.Run (guiWinDisplay depth) x fun _ y => H y ∧ Tidy lax (stack y)) :
    ∀ x, H x ∧ Tidy lax (stack x) → V.Run (passBody depth) x fun _ y => H y ∧ Tidy lax (stack y) := by
  have hP := Sight.Run.compositional (V := V) fun x => H x ∧ Tidy lax (stack x)
  have hop : ∀ o, asideMay o = true → ∀ x, H x ∧ Tidy lax (stack x) →
      V.Run (perform o) x fun _ y => H y ∧ Tidy lax (stack y) := fun o ho => S.run_aside (All.perform ho)
  have hopen := S.run_aside (built_openLcdDisplay (All.compositional _) fun o ho => All.perform (asideMay_of_openMay ho))
  have hmoto := S.run_aside (p := motoCycle .lcdtoBackwash) (built_motoCycle (All.compositional _)
    (fun o ho => All.perform (asideMay_of_requestMay ho)) fun _ hp => All.bind (All.perform rfl) fun _ => hp)
  have hdelta : deltaPressWork.All fun o => asideMay o = true := by
    simp only [deltaPressWork, countUp, flashSet, jumptoReminder, jumptoAutomatic]
    repeat' first
      | with_reducible exact built_openLcdDisplay (All.compositional _) fun o ho => All.perform (asideMay_of_openMay ho)
      | intro _ | with_reducible apply All.bind | with_reducible apply All.when | with_reducible apply All.ite
      | exact All.perform rfl
  have halert : ∀ w, w = .w26 ∨ w = .w27 → ∀ x, H x ∧ Tidy lax (stack x) →
      V.Run (pushAlert w) x fun _ y => H y ∧ Tidy lax (stack y) := by
    intro w hw x hx
    rw [show pushAlert w = (guiWinAdd w >>= fun _ => memsetFirstFlag) >>= fun _ => openLcdDisplay from
      (Prog.bind_assoc _ _ _).symm]
    refine (S.alert hw hx.1).bind fun _ y hy => hopen y ⟨hy.1, ?_⟩
    rw [hy.2.1]
    exact hx.2.push_wiped (hx.2.wipe hy.2.2).2 rfl (by rcases hw with rfl | rfl <;> rfl)
  have hreminder : ∀ x, H x ∧ Tidy lax (stack x) → V.Run lcdtoReminder x fun _ y => H y ∧ Tidy lax (stack y) := by
    refine hP.bind (hop _ rfl) fun (f : Nat) => hP.bind (hop _ rfl) fun (j : Nat) x hx => Sight.Run.ite (fun _ => ?_) fun _ => ?_
    · exact S.run_push (.inr rfl) hx
    · exact S.run_clear (.inr rfl) hx
  have hbackwash : ∀ x, H x ∧ Tidy lax (stack x) → V.Run lcdtoBackwash x fun _ y => H y ∧ Tidy lax (stack y) := by
    refine hP.bind (hop _ rfl) fun (f : Nat) => hP.bind (fun x hx => Sight.Run.ite (fun _ => ?_) fun _ => ?_) fun _ => hmoto
    · exact S.run_push (.inl rfl) hx
    · exact S.run_clear (.inl rfl) hx
  have hserve : ∀ (flag : Var) (work : Code Unit), (asideMay (.load flag) && asideMay (.store flag 0)) = true →
      (∀ x, H x ∧ Tidy lax (stack x) → V.Run work x fun _ y => H y ∧ Tidy lax (stack y)) →
      ∀ x, H x ∧ Tidy lax (stack x) → V.Run (serve flag work) x fun _ y => H y ∧ Tidy lax (stack y) := by
    intro flag work hmay hwork
    obtain ⟨hload, hstore⟩ := Bool.and_eq_true_iff.mp hmay
    exact hP.bind (hop _ hload) fun (f : Nat) => hP.when (hP.bind (hop _ hstore) fun _ => hwork)
  refine hP.bind hdisplay fun _ => hP.bind (S.run_aside hdelta) fun _ => hP.bind (hserve _ _ rfl ?_) fun _ =>
    hP.bind (hserve _ _ rfl ?_) fun _ => hP.bind (hserve _ _ rfl (halert _ (.inl rfl))) fun _ =>
      hserve _ _ rfl (halert _ (.inr rfl))
  · exact hP.bind hreminder fun _ => hP.bind hopen fun _ => hP.bind (hop _ rfl) fun _ => hop (.timerStart .screenVcc) rfl
  · exact hP.bind hbackwash fun _ => hopen

end Service

end Backwash.Lcd
