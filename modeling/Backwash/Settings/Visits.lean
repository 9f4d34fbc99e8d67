import Backwash.Settings.Dial

/-! The windows over the dial.

A visit to window 16 or 17 draws the number and sets the copy, counts the copy up and down,
and saves it. No other window touches number, copy or text, and only the factory reset
touches the entry. -/
namespace Backwash.Settings
open Concurrent Prog Firmware Dial

variable {N : Number} {I : Range} {A : Op → Nat → Prop} {allowed : Call → Bool} {depth : Nat} {x : Dial} {α β : Type}

/-! ### Operations that leave the dial sound -/

theorem dial_skip {o : Op} {f : Res o → Code β} {Q : β → Dial → Prop} (ho : Dial.aside N o = true)
    (hx : x.Safe I) (hf : ∀ r, (dial N I A allowed depth).can o x r → (dial N I A allowed depth).Run (f r) x Q) :
    (dial N I A allowed depth).Run (perform o >>= f) x Q := by
  refine Sight.Run.step fun r hr => ?_
  show Dial.Safe I (x.after N o r) ∧ (dial N I A allowed depth).Run (f r) (x.after N o r) Q
  rw [Dial.after_aside ho]
  exact ⟨hx, hf r hr⟩

theorem dial_aside {p : Code α} (hp : p.All fun o => Dial.aside N o = true) (hx : x.Safe I) :
    (dial N I A allowed depth).Run p x fun _ y => y = x := by
  refine Sight.Run.all (D := fun y => y = x) (hp.mono fun o ho y r hy _ => ?_) rfl
  have hafter : y.after N o r = x := by rw [Dial.after_aside ho, hy]
  exact ⟨show (y.after N o r).Safe I from hafter ▸ hx, hafter⟩

/-- The operation loses at most that the window is drawn. -/
def light (N : Number) (o : Op) : Bool :=
  Dial.aside N o || match o with
    | .store v n => v == .firstFlag N.win && n == 0
    | .memsetFirstFlag | .mark (.winFun _) => true
    | _ => false

theorem Dial.Edited.congr {y : Dial} (h : Edited N x) (hcount : y.count = x.count) (hinitial : y.initial = x.initial)
    (htext : y.text = x.text) (htemp : y.temp = x.temp) : Edited N y := by
  refine ⟨?_, ?_, ?_⟩
  · rw [hcount]
    exact h.once
  · rw [hcount, hinitial, htext, htemp]
    exact h.drawn
  · rw [hcount, htext, htemp]
    exact h.changed

theorem Dial.Sound.light {o : Op} (h : Sound N I x) (ho : light N o = true) (r : Res o) : Sound N I (x.after N o r) := by
  by_cases ha : Dial.aside N o = true
  · rw [Dial.after_aside ha]
    exact h
  cases o with
  | store v n =>
    obtain ⟨rfl, rfl⟩ : v = .firstFlag N.win ∧ n = 0 := by simpa [Settings.light, ha] using ho
    rw [Dial.after_flag]
    exact ⟨⟨h.setting, h.entry, h.clear⟩, fun e => absurd e (by simp)⟩
  | memsetFirstFlag => exact ⟨⟨h.setting, h.entry, h.clear⟩, fun e => absurd e Bool.false_ne_true⟩
  | mark m =>
    cases m with
    | winFun w => exact ⟨⟨h.setting, h.entry, h.clear⟩, fun e => ⟨(h.temp e).1, (h.temp e).2.congr rfl rfl rfl rfl⟩⟩
    | _ => exact absurd rfl ha
  | efSet id n => simp [Settings.light, ha] at ho
  | sprintf y n => simp [Settings.light, ha] at ho
  | _ => exact absurd rfl ha

theorem run_light {o : Op} (ho : light N o = true) : ∀ x, Sound N I x →
    (dial N I A allowed depth).Run (perform o) x fun _ y => Sound N I y := fun _ h =>
  Sight.Run.perform fun r _ => ⟨(h.light ho r).toSafe, h.light ho r⟩

theorem sound_compositional :
    Compositional fun (p : Code _) => ∀ x, Sound N I x → (dial N I A allowed depth).Run p x fun _ y => Sound N I y :=
  Sight.Run.compositional _

theorem light_window {w : Win} {o : Op} (hw : w ≠ N.win) (hw19 : w ≠ .w19) (ho : editMay w o = true) : light N o = true := by
  obtain ⟨hsave, hedit⟩ := Bool.and_eq_true_iff.mp ho
  obtain ⟨hwin, hsaves⟩ := Bool.and_eq_true_iff.mp hsave
  obtain ⟨-, hown⟩ := Bool.and_eq_true_iff.mp hwin
  cases o with
  | store v n =>
    have hs : v ≠ N.setting := by
      rintro rfl
      cases N <;> exact hw (by simpa [saves, Number.setting, Number.win] using hsaves)
    have ht : v ≠ N.temp := by
      rintro rfl
      cases N <;> exact hw (by simpa [edits, Number.temp, Number.win] using hedit)
    have hf : v ≠ .firstFlag N.win := by
      rintro rfl
      have hboth : (N.win == w && (n == 0 || n == 1)) = true := hown
      exact hw (beq_iff_eq.mp (Bool.and_eq_true_iff.mp hboth).1).symm
    simp [light, Dial.aside, hs, ht, hf]
  | efSet id n =>
    have hid : id ≠ N.entry := by
      rintro rfl
      cases N <;> cases w <;> first | exact absurd rfl hw | exact absurd rfl hw19 | cases hsaves
    simp [light, Dial.aside, hid]
  | sprintf y n =>
    have hy : y ≠ N.text := by
      rintro rfl
      cases N <;> exact hw (by simpa [edits, Firmware.formats, Number.text, Number.win] using hedit)
    simp [light, Dial.aside, hy]
  | mark m => cases m <;> rfl
  | memsetFirstFlag => rfl
  | _ => rfl

/-! ### A visit -/

/-- The number is being edited. -/
structure Visit (N : Number) (I : Range) (x : Dial) : Prop where
  sound : Sound N I x
  drawn : x.drawn = true

theorem aside_takeKeys : takeKeys.All fun o => Dial.aside N o = true :=
  built_takeKeys (All.compositional _) fun _ => All.perform rfl

theorem aside_drawButtons (flags : List Nat) : (drawButtons flags).All fun o => Dial.aside N o = true :=
  built_drawButtons (All.compositional _) (fun _ _ => ⟨All.perform rfl, All.perform rfl⟩) flags

/-- The window is drawn, and its text is about to be. -/
structure Drawing (I : Range) (x : Dial) : Prop extends Safe I x where
  count : x.count = 0

theorem run_numberDrawn (hK : Kept N I A) (h : Drawing I x) (htemp : x.temp = N.first x.setting % 2 ^ 16) :
    (dial N I A allowed depth).Run (do
      store .nowButtonId 0
      let n ← load N.setting
      sprintf N.text n
      drawButtons [1, 0, 0, 1]) x fun _ y => Sound N I y := by
  refine dial_skip (by cases N <;> rfl) h.toSafe fun _ _ => dial_skip rfl h.toSafe fun (n : Nat) hn => ?_
  obtain ⟨rfl, hfits⟩ := hn.1.1 rfl
  have hsound : Sound N I (x.after N (.sprintf N.text x.setting) ()) := by
    rw [Dial.after_text, h.count]
    refine ⟨⟨h.setting, h.entry, h.clear⟩, fun _ => ⟨htemp ▸ hK.first _ h.setting, Nat.le_refl 1, fun _ => ?_,
      fun e => absurd e (by simp)⟩⟩
    exact ⟨x.setting, rfl, rfl, hfits, htemp⟩
  exact Sight.Run.step fun _ _ =>
    ⟨hsound.toSafe, (dial_aside (aside_drawButtons _) hsound.toSafe).mono fun _ _ hy => hy ▸ hsound⟩

/-- The window draws itself with the setting, and the copy is set. -/
theorem run_numberDraw (hK : Kept N I A) {first : Code Nat} (hfirst : ∀ x : Dial, x.Safe I →
      (dial N I A allowed depth).Run first x fun n y => y = x ∧ n = N.first x.setting) (h : Sound N I x) :
    (dial N I A allowed depth).Run (do
      store (.firstFlag N.win) 1
      let n ← first
      store N.temp n
      store .nowButtonId 0
      let n ← load N.setting
      sprintf N.text n
      drawButtons [1, 0, 0, 1]) x fun _ y => Sound N I y := by
  have hone : Drawing I (x.after N (.store (.firstFlag N.win) 1) ()) := by
    rw [Dial.after_flag]
    exact ⟨⟨h.setting, h.entry, h.clear⟩, rfl⟩
  refine Sight.Run.step fun _ _ => ⟨hone.toSafe, ?_⟩
  refine Sight.Run.bind (hfirst _ hone.toSafe) fun n y hy => ?_
  obtain ⟨rfl, rfl⟩ := hy
  have htwo : ∀ y : Dial, Drawing I y → Drawing I (y.after N (.store N.temp (N.first y.setting)) ()) ∧
      (y.after N (.store N.temp (N.first y.setting)) ()).temp =
        N.first (y.after N (.store N.temp (N.first y.setting)) ()).setting % 2 ^ 16 := fun y hy => by
    rw [Dial.after_temp]
    exact ⟨⟨⟨hy.setting, hy.entry, hy.clear⟩, hy.count⟩, rfl⟩
  obtain ⟨hdrawing, htemp⟩ := htwo _ hone
  exact Sight.Run.step fun _ _ => ⟨hdrawing.toSafe, run_numberDrawn hK hdrawing htemp⟩

/-- The changed copy is formatted. -/
theorem run_numberFormat (h : Sound N I x) (hdrawn : x.drawn = true) (g : Nat) (hg : I.value g) :
    (dial N I A allowed depth).Run (do
      let n ← load N.temp
      sprintf N.text n
      guiButton 0) {x with temp := g} fun _ y => Visit N I y := by
  have honce := (h.temp hdrawn).2.once
  refine dial_skip rfl ⟨h.setting, h.entry, h.clear⟩ fun (n : Nat) hn => ?_
  obtain rfl : n = g := (hn.1.2.1 rfl).1
  have hvisit : Visit N I (Dial.after N (.sprintf N.text n) () {x with temp := n}) := by
    rw [Dial.after_text]
    refine ⟨⟨⟨h.setting, h.entry, h.clear⟩, fun _ => ⟨hg, Nat.le_add_left 1 _, fun e => ?_, fun _ => rfl⟩⟩, hdrawn⟩
    have hcount : x.count + 1 = 1 := e
    omega
  exact Sight.Run.step fun _ _ => ⟨hvisit.sound.toSafe, (dial_aside (All.perform rfl) hvisit.sound.toSafe).mono fun _ _ hy =>
    hy ▸ hvisit⟩

/-- K0 or K1: the copy is changed and formatted, or the selection moves. -/
theorem run_numberEdit {change : Code Unit} (h : Visit N I x)
    (hchange : (dial N I A allowed depth).Run change x fun _ y => ∃ g, y = {x with temp := g} ∧ I.value g) :
    (dial N I A allowed depth).Run (do
      let b ← load .nowButtonId
      if b = 0 then do
        change
        let n ← load N.temp
        sprintf N.text n
        guiButton 0
      else toggleSave) x fun _ y => Visit N I y := by
  refine dial_skip (by cases N <;> rfl) h.sound.toSafe fun (b : Nat) _ => Sight.Run.ite (fun _ => ?_) fun _ => ?_
  · refine Sight.Run.bind hchange fun _ y ⟨g, hy, hg⟩ => ?_
    subst hy
    exact run_numberFormat h.sound h.drawn g hg
  · refine (dial_aside ?_ h.sound.toSafe).mono fun _ y hy => hy ▸ h
    simp only [toggleSave, drawButton]
    repeat' first
      | intro _ | with_reducible apply All.bind | with_reducible exact All.pure _ | split
      | exact All.perform (by cases N <;> rfl)

/-- The number is saved: the text shows it exactly when the dial says so. -/
theorem Dial.Sound.shows (h : Sound N I x) (hdrawn : x.drawn = true) : (x.text == some x.temp) = x.shows N := by
  have hedited := (h.temp hdrawn).2
  by_cases hcount : 2 ≤ x.count
  · simp [Dial.shows, hedited.changed hcount, hcount]
  · have hone : x.count = 1 := by
      have := hedited.once
      omega
    obtain ⟨n, hinitial, htext, hfits, htemp⟩ := hedited.drawn hone
    rw [htext, htemp, Dial.shows, hinitial]
    cases N with
    | hardness => simp [Number.first, hone]
    | backwash =>
      have hn : n < 2 ^ 16 := hfits
      simpa [Number.first] using (Nat.mod_eq_of_lt hn).symm

theorem run_numberSave (h : Visit N I x) {p : Code β} {Q : β → Dial → Prop}
    (hp : ∀ y, Sound N I y → (dial N I A allowed depth).Run p y Q) :
    (dial N I A allowed depth).Run (do
      let n ← load N.temp
      store N.setting n
      let n ← load N.temp
      flashSet N.entry n
      p) x Q := by
  have hin := (h.sound.temp h.drawn).1
  have hshows := h.sound.shows h.drawn
  have hwidth : 16 ≤ N.setting.width := by cases N <;> decide
  have hedited := (h.sound.temp h.drawn).2
  refine dial_skip rfl h.sound.toSafe fun (n : Nat) hn => ?_
  obtain ⟨rfl, hfits⟩ := hn.1.2.1 rfl
  have hlt : x.temp < 2 ^ 16 := hfits
  have hmod : x.temp % 2 ^ N.setting.width = x.temp :=
    Nat.mod_eq_of_lt (Nat.lt_of_lt_of_le hfits (Nat.pow_le_pow_right Nat.two_pos hwidth))
  have hsaved : x.after N (.store N.setting x.temp) () = {x with setting := x.temp} := by
    rw [Dial.after_setting, hmod]
    simp [hshows, h.sound.clear]
  have hsound : Sound N I {x with setting := x.temp} :=
    ⟨⟨hin, h.sound.entry, h.sound.clear⟩, fun _ => ⟨hin, hedited.congr rfl rfl rfl rfl⟩⟩
  refine Sight.Run.step fun _ _ => ?_
  show Dial.Safe I (x.after N (.store N.setting x.temp) ()) ∧
    (dial N I A allowed depth).Run _ (x.after N (.store N.setting x.temp) ()) Q
  rw [hsaved]
  refine ⟨hsound.toSafe, dial_skip rfl hsound.toSafe fun (n : Nat) hn => ?_⟩
  obtain ⟨rfl, -⟩ := hn.1.2.1 rfl
  refine dial_skip (o := .efBegin N.entry) rfl hsound.toSafe fun _ _ => ?_
  have hentry : Sound N I (Dial.after N (.efSet N.entry x.temp) () {x with setting := x.temp}) := by
    rw [Dial.after_entry, Nat.mod_eq_of_lt (by omega)]
    refine ⟨⟨hin, I.saved _ hin, ?_⟩, fun _ => ⟨hin, hedited.congr rfl rfl rfl rfl⟩⟩
    show (x.fault || (x.win == some N.win && (x.text == some x.temp) != x.shows N)) = false
    rw [hshows, h.sound.clear]
    simp
  exact Sight.Run.step fun _ _ => ⟨hentry.toSafe, dial_skip (o := .mdelay 10) rfl hentry.toSafe fun _ _ => hp _ hentry⟩

/-! ### Windows 16 and 17 -/

section
variable {display : Code Unit}

/-- The window is left: the next one is displayed, then the flag is cleared. -/
theorem run_numberLeave (hd : ∀ x, Sound N I x → (dial N I A allowed depth).Run display x fun _ y => Sound N I y)
    (h : Sound N I x) : (dial N I A allowed depth).Run (do
      guiWinDeleteTop
      display
      store (.firstFlag N.win) 0) x fun _ y => Sound N I y := by
  refine dial_skip rfl h.toSafe fun _ _ => Sight.Run.bind (hd x h) fun _ y hy => run_light ?_ y hy
  cases N <;> rfl

theorem dial_numberWinFun (hK : Kept N I A) {first : Code Nat} {down up : Code Unit}
    (hd : ∀ x, Sound N I x → (dial N I A allowed depth).Run display x fun _ y => Sound N I y)
    (hfirst : ∀ x : Dial, x.Safe I →
      (dial N I A allowed depth).Run first x fun n y => y = x ∧ n = N.first x.setting)
    (hdown : ∀ x : Dial, x.Safe I → I.value x.temp →
      (dial N I A allowed depth).Run down x fun _ y => ∃ g, y = {x with temp := g} ∧ I.value g)
    (hup : ∀ x : Dial, x.Safe I → I.value x.temp →
      (dial N I A allowed depth).Run up x fun _ y => ∃ g, y = {x with temp := g} ∧ I.value g) (h : Sound N I x) :
    (dial N I A allowed depth).Run (numberWinFun display N.win N.setting N.temp first N.text N.entry down up) x
      fun _ y => Sound N I y := by
  refine Sight.Run.step fun (f : Nat) hf => ?_
  refine ⟨h.toSafe, Sight.Run.ite (fun _ => run_numberDraw hK hfirst h) fun hne => ?_⟩
  have hvisit : Visit N I x := ⟨h, hf.1.2.2 rfl hne⟩
  refine Sight.Run.bind (R := fun _ y => y = x) (dial_aside aside_takeKeys h.toSafe) fun k y hy => ?_
  subst hy
  refine Sight.Run.bind (R := fun _ z => Visit N I z) (Sight.Run.when (fun _ => ?_) fun _ => hvisit) fun _ z hz => ?_
  · exact run_numberEdit hvisit (hdown y h.toSafe (h.temp hvisit.drawn).1)
  refine Sight.Run.bind (R := fun _ u => Visit N I u) (Sight.Run.when (fun _ => ?_) fun _ => hz) fun _ u hu => ?_
  · exact run_numberEdit hz (hup z hz.sound.toSafe (hz.sound.temp hz.drawn).1)
  refine Sight.Run.when (fun _ => ?_) fun _ => hu.sound
  refine dial_skip (by cases N <;> rfl) hu.sound.toSafe fun (b : Nat) _ => ?_
  split
  · refine (dial_aside ?_ hu.sound.toSafe).mono fun _ v hv => hv ▸ hu.sound
    simp only [drawButton]
    repeat' first | intro _ | with_reducible apply All.bind | exact All.perform (by cases N <;> rfl)
  · exact run_numberSave hu fun v hv => run_numberLeave hd hv
  · exact run_numberLeave hd hu.sound
  · exact hu.sound

/-- The copy is changed by one key. -/
theorem run_copy {g : Nat → Nat} (hx : x.Safe I)
    (hg : A (.store N.temp (g x.temp)) x.temp → I.value (g x.temp % 2 ^ 16)) :
    (dial N I A allowed depth).Run (store N.temp (g x.temp)) x fun _ y => ∃ m, y = {x with temp := m} ∧ I.value m := by
  refine Sight.Run.perform fun _ hcan => ?_
  show Dial.Safe I (x.after N (.store N.temp (g x.temp)) ()) ∧
    ∃ m, x.after N (.store N.temp (g x.temp)) () = {x with temp := m} ∧ I.value m
  rw [Dial.after_temp]
  exact ⟨⟨hx.setting, hx.entry, hx.clear⟩, _, rfl, hg hcan.2⟩

theorem dial_userMain16WinFun (hK : Kept .hardness I A)
    (hd : ∀ x, Sound .hardness I x → (dial .hardness I A allowed depth).Run display x fun _ y => Sound .hardness I y)
    (h : Sound .hardness I x) :
    (dial .hardness I A allowed depth).Run (userMain16WinFun display) x fun _ y => Sound .hardness I y := by
  refine dial_numberWinFun (N := .hardness) hK hd (fun y _ => ⟨rfl, rfl⟩) (fun y hy hin => ?_) (fun y hy hin => ?_) h
  · refine dial_skip rfl hy fun (n : Nat) hn => ?_
    obtain ⟨rfl, hfits⟩ := hn.1.2.1 rfl
    have hdown := hK.down _ hin
    refine Sight.Run.when (fun hc => run_copy (N := .hardness) (g := (· - 10)) hy fun _ => ?_) fun _ => ⟨y.temp, rfl, hin⟩
    rwa [Number.down, if_pos hc] at hdown
  · refine dial_skip rfl hy fun (n : Nat) hn => ?_
    obtain ⟨rfl, -⟩ := hn.1.2.1 rfl
    exact run_copy (N := .hardness) (g := (· + 10)) hy fun hA => hK.up _ hin hA

theorem dial_userMain17WinFun (hK : Kept .backwash I A)
    (hd : ∀ x, Sound .backwash I x → (dial .backwash I A allowed depth).Run display x fun _ y => Sound .backwash I y)
    (h : Sound .backwash I x) :
    (dial .backwash I A allowed depth).Run (userMain17WinFun display) x fun _ y => Sound .backwash I y := by
  refine dial_numberWinFun (N := .backwash) hK hd (fun y hy => ?_) (fun y hy hin => ?_) (fun y hy hin => ?_) h
  · exact Sight.Run.perform fun (n : Nat) hn => ⟨hy, rfl, (hn.1.1 rfl).1⟩
  · refine dial_skip rfl hy fun (n : Nat) hn => ?_
    obtain ⟨rfl, -⟩ := hn.1.2.1 rfl
    have hdown := hK.down _ hin
    refine Sight.Run.when (fun hc => run_copy (N := .backwash) (g := (· - 1)) hy fun _ => ?_) fun _ => ⟨y.temp, rfl, hin⟩
    rwa [Number.down, if_pos hc] at hdown
  · refine dial_skip rfl hy fun (n : Nat) hn => ?_
    obtain ⟨rfl, -⟩ := hn.1.2.1 rfl
    have hup := hK.up _ hin
    refine Sight.Run.when (fun hc => run_copy (N := .backwash) (g := (· + 1)) hy fun hA => ?_) fun _ => ⟨y.temp, rfl, hin⟩
    rw [Number.up, if_pos hc] at hup
    exact hup hA

/-! ### The factory reset -/

theorem dial_factory (h : Sound N I x) (hw : x.win = some .w19) :
    (dial N I A allowed depth).Run (do flashFactory; cpuReset) x fun _ y => Sound N I y := by
  have hset : ∀ (o : Op) (y : Dial) (r : Res o), (Dial.aside N o = true ∨ ∃ n, o = .efSet n 0) →
      Sound N I y ∧ y.win = some .w19 → Sound N I (y.after N o r) ∧ (y.after N o r).win = some .w19 := by
    rintro o y r (ho | ⟨n, rfl⟩) ⟨hy, hwin⟩
    · rw [Dial.after_aside ho]
      exact ⟨hy, hwin⟩
    · by_cases hn : n = N.entry
      · subst hn
        have hne : (some Win.w19 == some N.win) = false := by cases N <;> rfl
        rw [Dial.after_entry]
        refine ⟨⟨⟨hy.setting, Nat.zero_mod (2 ^ 32) ▸ I.cleared, ?_⟩,
          fun e => ⟨(hy.temp e).1, (hy.temp e).2.congr rfl rfl rfl rfl⟩⟩, hwin⟩
        simp [hwin, hne, hy.clear]
      · rw [Dial.after_aside (by simp [Dial.aside, hn])]
        exact ⟨hy, hwin⟩
  have hall : (do flashFactory; cpuReset : Code Unit).All fun o => Dial.aside N o = true ∨ ∃ n, o = .efSet n 0 := by
    refine All.bind (All.bind (All.perform (.inl rfl)) fun _ => (All.compositional _).foldr (fun n => ?_) _) fun _ =>
      All.perform (.inl rfl)
    exact All.bind (All.perform (.inl rfl)) fun _ => All.bind (All.perform (.inr ⟨n, rfl⟩)) fun _ =>
      All.perform (o := Op.mdelay 10) (.inl rfl)
  refine (Sight.Run.all (D := fun y => Sound N I y ∧ y.win = some .w19) (hall.mono fun o ho y r hy _ => ?_) ⟨h, hw⟩).mono
    fun _ y hy => hy.1
  exact ⟨(hset o y r ho hy).1.toSafe, hset o y r ho hy⟩

theorem dial_userMain19WinFun (hd : ∀ x, Sound N I x → (dial N I A allowed depth).Run display x fun _ y => Sound N I y)
    (h : Sound N I x) (hw : x.win = some .w19) :
    (dial N I A allowed depth).Run (userMain19WinFun display) x fun _ y => Sound N I y := by
  have hbuttons := aside_drawButtons (N := N)
  have hop : ∀ n, Dial.aside N (.store (.firstFlag .w19) n) = true ∧ Dial.aside N (.store .nowButtonId n) = true := fun n => by
    cases N <;> exact ⟨rfl, rfl⟩
  refine dial_skip rfl h.toSafe fun (f : Nat) _ => Sight.Run.ite (fun _ => ?_) fun _ => ?_
  · refine (dial_aside ?_ h.toSafe).mono fun _ y hy => hy ▸ h
    exact All.bind (All.perform (hop 1).1) fun _ => All.bind (All.perform (hop 0).2) fun _ => hbuttons _
  refine Sight.Run.bind (R := fun _ y => y = x) (dial_aside aside_takeKeys h.toSafe) fun k y hy => ?_
  subst hy
  refine Sight.Run.bind (R := fun _ z => z = y) (dial_aside (All.when ?_) h.toSafe) fun _ z hz => ?_
  · simp only [userMain19Up]
    repeat' first
      | intro _ | with_reducible apply All.bind | with_reducible exact All.pure _ | split
      | exact All.perform (hop _).2 | exact All.perform rfl
  subst hz
  refine Sight.Run.bind (R := fun _ u => u = z) (dial_aside (All.when ?_) h.toSafe) fun _ u hu => ?_
  · simp only [userMain19Down, drawButton]
    repeat' first
      | intro _ | with_reducible apply All.bind | with_reducible exact All.pure _ | split
      | exact All.perform (hop _).2 | exact All.perform rfl
  subst hu
  refine Sight.Run.when (fun _ => dial_skip rfl h.toSafe fun (n : Nat) _ => ?_) fun _ => h
  split
  · exact dial_factory h hw
  · refine dial_skip rfl h.toSafe fun _ _ => Sight.Run.bind (hd u h) fun _ y hy => run_light ?_ y hy
    simp [light, (hop 0).1]
  · exact h

/-! ### Every pass -/

theorem dial_winFun (hK : Kept N I A) (hd : ∀ x, Sound N I x → (dial N I A allowed depth).Run display x fun _ y => Sound N I y)
    {w : Win} (h : Sound N I x) (hw : x.win = some w) :
    (dial N I A allowed depth).Run (winFun display w) x fun _ y => Sound N I y := by
  by_cases h19 : w = .w19
  · subst h19
    exact dial_userMain19WinFun hd h hw
  · by_cases hN : w = N.win
    · subst hN
      cases N with
      | hardness => exact dial_userMain16WinFun hK hd h
      | backwash => exact dial_userMain17WinFun hK hd h
    · exact edits_winFun sound_compositional hd (fun _ ho => run_light (light_window hN h19 ho)) x h

theorem dial_guiWinDisplay (hK : Kept N I A) (n : Nat) :
    ∀ x, Sound N I x → (dial N I A allowed depth).Run (guiWinDisplay n) x fun _ y => Sound N I y := by
  induction n with
  | zero => exact fun _ h => h
  | succ n ih =>
    refine fun x h => dial_skip rfl h.toSafe fun (top : Option Win) _ => ?_
    cases top with
    | none => exact h
    | some w =>
      have hy : Sound N I (x.after N (.mark (.winFun w)) ()) :=
        h.light (o := .mark (.winFun w)) rfl ()
      exact Sight.Run.step fun _ _ => ⟨hy.toSafe, dial_winFun hK ih hy rfl⟩

theorem light_requestMay {o : Op} (ho : requestMay o = true) : light N o = true := by
  cases o with
  | store v n => cases v <;> first | (cases N <;> rfl) | cases ho
  | _ => first | rfl | cases ho

theorem dial_motoCycle (caller : Caller) : ∀ x, Sound N I x →
    (dial N I A allowed depth).Run (motoCycle caller) x fun _ y => Sound N I y :=
  built_motoCycle (Q := fun p => ∀ x, Sound N I x → (dial N I A allowed depth).Run p x fun _ y => Sound N I y)
    sound_compositional (fun _ ho => run_light (light_requestMay ho)) fun _ hp =>
      sound_compositional.bind (run_light rfl) fun _ => hp

theorem dial_lcdTaskEntry (hK : Kept N I A) : ∀ x, Sound N I x →
    (dial N I A allowed depth).Run (lcdTaskEntry depth) x fun _ y => Sound N I y := by
  refine built_lcdTaskEntry sound_compositional (dial_guiWinDisplay hK depth) ?_ (dial_motoCycle _) fun o ho => run_light ?_
  · refine built_openLcdDisplay sound_compositional fun o ho => run_light ?_
    cases o with
    | store v n => cases v <;> first | (cases N <;> rfl) | cases ho
    | mark m => cases m <;> rfl
    | _ => first | rfl | cases ho
  · cases o with
    | store v n =>
      cases v with
      | firstFlag u =>
        have hu : n = 0 ∧ (u = .w3 ∨ u = .w25) := by simpa [taskMay] using ho
        obtain ⟨rfl, rfl | rfl⟩ := hu <;> cases N <;> rfl
      | _ => first | (cases N <;> rfl) | cases ho
    | efSet id n =>
      have hid : id = 9 ∨ id = 10 := by simpa [taskMay] using ho
      rcases hid with rfl | rfl <;> cases N <;> rfl
    | mark m => cases m <;> rfl
    | _ => first | rfl | cases ho

/-- Every call of the display thread leaves the dial sound. -/
theorem dial_body (hK : Kept N I A) {c : Call} (hc : c.thread = .lcd) (h : Sound N I x) :
    (dial N I A allowed depth).Run (body depth c) x fun _ y => Sound N I y := by
  cases c with
  | lcdTask => exact dial_lcdTaskEntry hK x h
  | motoCycle caller => exact dial_motoCycle caller x h
  | scheduleSave k =>
    refine edits_scheduleSave sound_compositional k (fun _ ho => run_light (light_window ?_ ?_ ho)) x h
    · cases k <;> cases N <;> decide
    · cases k <;> decide
  | _ => cases hc

end

/-- Every run is seen from the dial. -/
theorem dial_seen (hK : Kept N I A) {s : Device} (hx : Sound N I x) (hs : Sees N x s []) {as : List Act}
    (h : (board allowed depth).Admits (CopyRule N A) (.boot s) as) :
    ∃ y : Dial, y.Safe I ∧
      Sees N y ((board allowed depth).run (.boot s) as).state ((board allowed depth).run (.boot s) as).trace ∧
      (((board allowed depth).run (.boot s) as).task .lcd = none → Sound N I y) := by
  refine Owner.run_sees (N := dial N I A allowed depth) (fun c s x hready hrest _ => ?_) hx hx.toSafe hs h
  have hr : (Thread.lcd = c.thread ∧ allowed c = true) ∧ c.enabled s = true := by simpa [board, dial] using hready
  exact dial_body hK hr.1.1.symm hrest

end Backwash.Settings
