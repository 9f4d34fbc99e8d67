import Backwash.Firmware.Obligations

/-! What `LCD_Flag` says about the display.

The flag is 0 or 1 while the display is lit, 2 while it is dark and 3 while it has
no supply. The button thread and the display thread open the display by what they
read in the flag; the timer thread darkens it and takes its supply, and writes the
flag without looking at it. -/
namespace Backwash.Lcd
open Concurrent Prog Protocol Firmware

/-! ### The property -/

/-- `LcdInit` has run since the supply of the display last went. -/
def initialised : Trace → Bool
  | [] => true
  | .did _ o _ :: tr =>
    if o = .pinWrite .lcdEn false then false else if o = .mark .lcdInit then true else initialised tr
  | .began _ _ :: tr => initialised tr

def Truthful (s : Device) (tr : Trace) : Prop :=
  (s.vars .lcdFlag ≤ 2 → s.pins .lcdEn = true ∧ initialised tr = true) ∧
  (s.vars .lcdFlag ≤ 1 → s.pins .lcdBl = true)

/-- The thread has read `LCD_Flag` and is still in `OpenLcdDisplay`, which ends with
the backlight: the first of its two switchings in `LcdInit` follows the supply. -/
def opening (t : Thread) : Trace → Bool
  | [] => false
  | .began u _ :: tr => if u = t then false else opening t tr
  | .did u o _ :: tr => if u = t then openingAfter o (lastOp t tr) else opening t tr
where
  openingAfter : Op → Option Op → Bool
    | .load v, _ => v == .lcdFlag
    | .store v n, _ => v == .lcdFlag && n == 1
    | .pinWrite .lcdBl _, last => last == some (.pinWrite .lcdEn true)
    | .pinWrite p _, _ => p == .lcdEn || p == .lcdRst
    | .mark m, _ => m == .lcdInit
    | _, _ => false

/-- Some thread is half way through `OpenLcdDisplay`. -/
def midOpen (cfg : Conf) : Bool :=
  ((cfg.call .button).isSome && opening .button cfg.trace) || ((cfg.call .lcd).isSome && opening .lcd cfg.trace)

/-- The flag tells the truth wherever nobody is half way through opening the display. -/
def TellsTruth (cfg : Conf) : Prop := midOpen cfg = false → Truthful cfg.state cfg.trace

instance (s : Device) (tr : Trace) : Decidable (Truthful s tr) := inferInstanceAs (Decidable (_ ∧ _))

instance (cfg : Conf) : Decidable (TellsTruth cfg) := inferInstanceAs (Decidable (_ → _))

/-! ### The rule -/

def storesFlag : Op → Bool
  | .store v _ => v == .lcdFlag
  | _ => false

/-- The backlight timer does not expire without supply; the timer thread writes the
flag while nobody is half way through opening; and nobody reads the flag between
that write and what it does next, which is to switch the pin. -/
def DisplayRule (cfg : Conf) : Act → Prop
  | .step t _ =>
    (t = .timer ∧ (cfg.head t).any storesFlag = true → midOpen cfg = false) ∧
    (t ≠ .timer ∧ cfg.head t = some (.load .lcdFlag) → (lastOp .timer cfg.trace).any storesFlag = false)
  | .start _ c => c = .expire .screenBacklight → cfg.state.vars .lcdFlag ≠ 3

instance (cfg : Conf) : ∀ a, Decidable (DisplayRule cfg a)
  | .step _ _ => inferInstanceAs (Decidable (_ ∧ _))
  | .start _ _ => inferInstanceAs (Decidable (_ → _))

/-! ### The invariant -/

inductive Stage where
  | idle
  -- the opening threads: what they have read, and how far they are
  | saw1 | saw2 | saw3 | lighting | powering | powered | pulsed | inited
  -- the timer thread: about to write 2, about to switch the light, about to take the supply
  | dimming | dark | cut
  deriving DecidableEq

/-- The thread is about to give the display its supply and to set it up. -/
def Stage.powers : Stage → Bool
  | .powering | .powered | .pulsed | .inited => true
  | _ => false

/-- The thread is about to switch the backlight on. -/
def Stage.lights (g : Stage) : Bool := g == .lighting || g.powers

def Stage.opens (g : Stage) : Bool := g == .saw1 || g == .saw2 || g == .saw3 || g.lights

/-- What an opening thread may rely on. -/
structure Opener (t : Thread) (g : Stage) (s : Device) (tr : Trace) : Prop where
  opens : g.opens = true → opening t tr = true
  saw1 : g = .saw1 → s.vars .lcdFlag ≤ 1
  saw2 : g = .saw2 → s.vars .lcdFlag ≤ 2
  supplied : g = .powered ∨ g = .pulsed ∨ g = .inited → s.pins .lcdEn = true
  last : g = .powered → lastOp t tr = some (.pinWrite .lcdEn true)
  inited : g = .inited → initialised tr = true

structure Lamp (gs : Thread → Stage) (s : Device) (tr : Trace) : Prop where
  range : s.vars .lcdFlag ≤ 3
  supply : s.vars .lcdFlag ≤ 2 → (s.pins .lcdEn = true ∧ initialised tr = true) ∨ ∃ t, (gs t).powers = true
  light : s.vars .lcdFlag ≤ 1 → s.pins .lcdBl = true ∨ ∃ t, (gs t).lights = true
  opener : ∀ t, Opener t (gs t) s tr
  dimming : gs .timer = .dimming → s.vars .lcdFlag ≤ 2
  dark : gs .timer = .dark → s.vars .lcdFlag = 2 ∧ lastOp .timer tr = some (.store .lcdFlag 2)
  cut : gs .timer = .cut → s.vars .lcdFlag = 3 ∧ lastOp .timer tr = some (.store .lcdFlag 3)
  alone : gs .timer = .dark ∨ gs .timer = .cut → ∀ t, (gs t).opens = false

variable {allowed : Call → Bool} {depth : Nat}

def lamp (allowed : Call → Bool) (depth : Nat) : Protocol (board allowed depth) Stage where
  Rule := DisplayRule
  Inv := Lamp
  At := fun t c g => g = .idle ∨ (c ≠ none ∧ (g.opens = true → t = .button ∨ t = .lcd))

section
variable {t u : Thread} {o : Op} {i : Input} {s s' : Device} {tr : Trace} {gs : Thread → Stage} {g m : Stage}

@[simp] theorem opening_did_self : opening t (.did t o i :: tr) = opening.openingAfter o (lastOp t tr) := if_pos rfl

theorem opening_did_of_ne (h : t ≠ u) : opening u (.did t o i :: tr) = opening u tr := if_neg h

/-- The operation is of no concern to the display. -/
def unlit : Op → Bool
  | .store v _ => v != .lcdFlag
  | .pinWrite p _ => p != .lcdEn && p != .lcdBl
  | .mark m => m != .lcdInit
  | _ => true

theorem initialised_unlit (h : unlit o = true) : initialised (.did t o i :: tr) = initialised tr := by
  have hen : o ≠ .pinWrite .lcdEn false := fun e => by rw [e] at h; cases h
  have hm : o ≠ .mark .lcdInit := fun e => by rw [e] at h; cases h
  simp [initialised, hen, hm]

theorem flag_unlit (h : unlit o = true) : (exec t o i s).1.vars .lcdFlag = s.vars .lcdFlag :=
  exec_vars (fun n e => by rw [e] at h; cases h) (fun w => by simp) (by decide) i

theorem en_unlit (h : unlit o = true) : (exec t o i s).1.pins .lcdEn = s.pins .lcdEn :=
  exec_pins (fun b e => by rw [e] at h; cases h) i

theorem bl_unlit (h : unlit o = true) : (exec t o i s).1.pins .lcdBl = s.pins .lcdBl :=
  exec_pins (fun b e => by rw [e] at h; cases h) i

theorem Opener.resting (hg : g.opens = false) : Opener t g s tr := by
  constructor
  · exact fun h => absurd (hg.symm.trans h) Bool.false_ne_true
  all_goals
    intro h
    cases g <;> simp_all [Stage.opens, Stage.lights, Stage.powers]

/-- A thread that has written the flag and not yet switched anything. -/
theorem Opener.started (hg : g = .lighting ∨ g = .powering) (h : opening t tr = true) : Opener t g s tr := by
  rcases hg with rfl | rfl <;> exact ⟨fun _ => h, by simp, by simp, by simp, by simp, by simp⟩

/-- What an opening thread relies on outlasts what another one does. -/
theorem Opener.other (h : Opener u g s tr) (hne : t ≠ u)
    (hflag : ∀ n, s.vars .lcdFlag ≤ n + 1 → s'.vars .lcdFlag ≤ n + 1)
    (hen : s.pins .lcdEn = true → s'.pins .lcdEn = true)
    (hinit : initialised tr = true → initialised (.did t o i :: tr) = true) : Opener u g s' (.did t o i :: tr) := by
  refine ⟨fun e => ?_, fun e => hflag 0 (h.saw1 e), fun e => hflag 1 (h.saw2 e), fun e => hen (h.supplied e), fun e => ?_,
    fun e => hinit (h.inited e)⟩
  · rw [opening_did_of_ne hne]
    exact h.opens e
  · rw [lastOp_did_of_ne hne]
    exact h.last e

/-- An operation of no concern, by a thread that is not switching anything. -/
theorem Lamp.unlit (h : Lamp gs s tr) (ho : unlit o = true) (hg : (gs t).opens = false)
    (ht : t = .timer → gs .timer ≠ .dark ∧ gs .timer ≠ .cut) : Lamp gs (exec t o i s).1 (.did t o i :: tr) := by
  have hlast : gs .timer = .dark ∨ gs .timer = .cut → lastOp .timer (.did t o i :: tr) = lastOp .timer tr := by
    intro hd
    refine lastOp_did_of_ne (fun e => ?_) _ _ _
    exact hd.elim (ht e).1 (ht e).2
  constructor
  · rw [flag_unlit ho]
    exact h.range
  · rw [flag_unlit ho, en_unlit ho, initialised_unlit ho]
    exact h.supply
  · rw [flag_unlit ho, bl_unlit ho]
    exact h.light
  · intro u
    by_cases hu : t = u
    · subst hu
      exact Opener.resting hg
    · exact (h.opener u).other hu (fun n => by rw [flag_unlit ho]; exact id) (by rw [en_unlit ho]; exact id)
        (by rw [initialised_unlit ho]; exact id)
  · rw [flag_unlit ho]
    exact h.dimming
  · intro e
    rw [flag_unlit ho, hlast (.inl e)]
    exact h.dark e
  · intro e
    rw [flag_unlit ho, hlast (.inr e)]
    exact h.cut e
  · exact h.alone

/-- A step of an opening thread: it only ever switches on. -/
theorem Lamp.advance (h : Lamp gs s tr) (ht : t ≠ .timer) (hd : gs .timer ≠ .dark ∧ gs .timer ≠ .cut)
    (hflag : ∀ n, s.vars .lcdFlag ≤ n + 1 → s'.vars .lcdFlag ≤ n + 1)
    (hen : s.pins .lcdEn = true → s'.pins .lcdEn = true) (hbl : s.pins .lcdBl = true → s'.pins .lcdBl = true)
    (hinit : initialised tr = true → initialised (.did t o i :: tr) = true)
    (hown : Opener t m s' (.did t o i :: tr))
    (hpow : (gs t).powers = true → m.powers = true ∨ (s'.pins .lcdEn = true ∧ initialised (.did t o i :: tr) = true))
    (hlit : (gs t).lights = true → m.lights = true ∨ s'.pins .lcdBl = true)
    (hon : s'.vars .lcdFlag ≤ 2 → s.vars .lcdFlag ≤ 2 ∨ m.powers = true)
    (hshine : s'.vars .lcdFlag ≤ 1 → s.vars .lcdFlag ≤ 1 ∨ m.lights = true) :
    Lamp (Function.update gs t m) s' (.did t o i :: tr) := by
  have htimer : Function.update gs t m .timer = gs .timer := Function.update_of_ne (Ne.symm ht) _ _
  have hself : Function.update gs t m t = m := Function.update_self ..
  -- a thread that was switching still is, or has switched
  have hsome : ∀ (f : Stage → Bool) (done : Prop), (f (gs t) = true → f m = true ∨ done) →
      (∃ u, f (gs u) = true) → done ∨ ∃ u, f (Function.update gs t m u) = true := by
    rintro f done hf ⟨u, hu⟩
    by_cases hut : u = t
    · subst hut
      rcases hf hu with hm | hd
      · exact .inr ⟨u, by rw [hself]; exact hm⟩
      · exact .inl hd
    · exact .inr ⟨u, by rw [Function.update_of_ne hut]; exact hu⟩
  constructor
  · exact hflag 2 h.range
  · intro hf
    rcases hon hf with hs | hm
    · rcases h.supply hs with ⟨he, hi⟩ | hu
      · exact .inl ⟨hen he, hinit hi⟩
      · exact hsome Stage.powers _ hpow hu
    · exact .inr ⟨t, by rw [hself]; exact hm⟩
  · intro hf
    rcases hshine hf with hs | hm
    · rcases h.light hs with hb | hu
      · exact .inl (hbl hb)
      · exact hsome Stage.lights _ hlit hu
    · exact .inr ⟨t, by rw [hself]; exact hm⟩
  · intro u
    by_cases hut : u = t
    · subst hut
      rw [hself]
      exact hown
    · rw [Function.update_of_ne hut]
      exact (h.opener u).other (Ne.symm hut) hflag hen hinit
  · rw [htimer]
    exact fun e => hflag 1 (h.dimming e)
  · rw [htimer]
    exact fun e => absurd e hd.1
  · rw [htimer]
    exact fun e => absurd e hd.2
  · rw [htimer]
    exact fun e => absurd e (not_or.mpr hd)

end

/-! ### Opening -/

section
variable {t : Thread} {c : Call} {o : Op} {i : Input} {s : Device} {tr : Trace} {g m : Stage}

theorem flag_open (h : openMay o = true) (n : Nat) (hs : s.vars .lcdFlag ≤ n + 1) :
    (exec t o i s).1.vars .lcdFlag ≤ n + 1 := by
  cases o with
  | store v k =>
    obtain ⟨rfl, hk⟩ : v = .lcdFlag ∧ (k = 0 ∨ k = 1) := by simpa [openMay] using h
    rcases hk with rfl | rfl <;> simp [exec, Device.store, Var.width]
  | load v => exact hs
  | pinWrite p b => exact hs
  | mark m => exact hs
  | _ => cases h

theorem pin_open {p : Pin} (h : openMay o = true) (hp : p = .lcdEn ∨ p = .lcdBl) (hs : s.pins p = true) :
    (exec t o i s).1.pins p = true := by
  cases o with
  | pinWrite q b =>
    by_cases hq : p = q
    · subst hq
      have hb : b = true := by rcases hp with rfl | rfl <;> exact h
      simp [exec, Device.setPin, hb]
    · simpa [exec, Device.setPin, hq] using hs
  | load v => exact hs
  | store v k => exact hs
  | mark m => exact hs
  | _ => cases h

theorem initialised_open (h : openMay o = true) (hs : initialised tr = true) :
    initialised (.did t o i :: tr) = true := by
  have hen : o ≠ .pinWrite .lcdEn false := fun e => by rw [e] at h; cases h
  by_cases hm : o = .mark .lcdInit <;> simp [initialised, hen, hm, hs]

theorem at_open (ht : t = .button ∨ t = .lcd) (g : Stage) : (lamp allowed depth).At t (some c) g :=
  .inr ⟨Option.some_ne_none c, fun _ => ht⟩

/-- A step of `OpenLcdDisplay` that takes the thread from `g` to `m`. -/
theorem lamp_open (ht : t = .button ∨ t = .lcd) (ho : openMay o = true) (hg : g.opens = true)
    (hown : ∀ s tr i, Opener t g s tr → Opener t m (exec t o i s).1 (.did t o i :: tr))
    (hpow : g.powers = true → m.powers = true ∨ ∀ s tr i, Opener t g s tr →
      (exec t o i s).1.pins .lcdEn = true ∧ initialised (.did t o i :: tr) = true)
    (hlit : g.lights = true → m.lights = true ∨ ∀ s i, (exec t o i s).1.pins .lcdBl = true)
    (hon : ∀ s tr i, Opener t g s tr → (exec t o i s).1.vars .lcdFlag ≤ 2 → s.vars .lcdFlag ≤ 2 ∨ m.powers = true)
    (hshine : ∀ s tr i, Opener t g s tr → (exec t o i s).1.vars .lcdFlag ≤ 1 → s.vars .lcdFlag ≤ 1 ∨ m.lights = true) :
    (lamp allowed depth).Outline t c (perform o) g fun _ x => x = m := by
  refine Outline.move (at_open ht m) (fun cfg gs i _ _ hgs hold _ => ?_) fun _ => rfl
  have hinv : Lamp gs cfg.state cfg.trace := hold.1
  have hop : Opener t g cfg.state cfg.trace := hgs ▸ hinv.opener t
  have htimer : t ≠ .timer := by rintro rfl; rcases ht with h | h <;> cases h
  have hd : gs .timer ≠ .dark ∧ gs .timer ≠ .cut := by
    refine not_or.mp fun e => ?_
    exact absurd ((hinv.alone e t).symm.trans (hgs ▸ hg)) Bool.false_ne_true
  refine hinv.advance htimer hd (flag_open ho) (pin_open ho (.inl rfl)) (pin_open ho (.inr rfl)) (initialised_open ho)
    (hown _ _ _ hop) (fun e => ?_) (fun e => ?_) (hon _ _ _ hop) (hshine _ _ _ hop)
  · rw [hgs] at e
    exact (hpow e).imp_right fun h => h _ _ _ hop
  · rw [hgs] at e
    exact (hlit e).imp_right fun h => h _ _

/-- What the thread has read tells it what to do. -/
def sawFlag : Nat → Stage
  | 1 => .saw1
  | 2 => .saw2
  | 3 => .saw3
  | _ => .idle

theorem lamp_load (ht : t = .button ∨ t = .lcd) :
    (lamp allowed depth).Outline t c (load .lcdFlag) .idle fun f x => x = sawFlag f := by
  refine Outline.perform fun cfg gs i _ hhead hgs hold hr => ⟨sawFlag (cfg.state.vars .lcdFlag), at_open ht _, ?_, rfl⟩
  have hinv : Lamp gs cfg.state cfg.trace := hold.1
  have htimer : t ≠ .timer := by rintro rfl; rcases ht with h | h <;> cases h
  have hlast : (lastOp .timer cfg.trace).any storesFlag = false := hr.2 ⟨htimer, hhead⟩
  have hd : gs .timer ≠ .dark ∧ gs .timer ≠ .cut := by
    constructor
    · intro e
      rw [(hinv.dark e).2] at hlast
      cases hlast
    · intro e
      rw [(hinv.cut e).2] at hlast
      cases hlast
  refine hinv.advance htimer hd (fun n h => h) id id id ⟨fun _ => by simp [opening.openingAfter], ?_, ?_, ?_, ?_, ?_⟩
    (fun e => ?_) (fun e => ?_) .inl .inl
  · intro e
    show cfg.state.vars .lcdFlag ≤ 1
    unfold sawFlag at e
    split at e <;> first | omega | cases e
  · intro e
    show cfg.state.vars .lcdFlag ≤ 2
    unfold sawFlag at e
    split at e <;> first | omega | cases e
  · intro e
    unfold sawFlag at e
    split at e <;> simp at e
  · intro e
    unfold sawFlag at e
    split at e <;> cases e
  · intro e
    unfold sawFlag at e
    split at e <;> cases e
  · rw [hgs] at e
    cases e
  · rw [hgs] at e
    cases e

theorem lamp_lcdInit (ht : t = .button ∨ t = .lcd) :
    (lamp allowed depth).Outline t c lcdInit .powering fun _ x => x = .idle := by
  have hkeep : ∀ {o : Op} {g m : Stage}, openMay o = true → g.powers = true → m.powers = true →
      (∀ s tr i, Opener t g s tr → Opener t m (exec t o i s).1 (.did t o i :: tr)) →
      (lamp allowed depth).Outline t c (perform o) g fun _ x => x = m := by
    intro o g m ho hg hm hown
    refine lamp_open ht ho (by simp [Stage.opens, Stage.lights, hg]) hown (fun _ => .inl hm)
      (fun _ => .inl (by simp [Stage.lights, hm])) (fun _ _ _ _ _ => .inr hm)
      fun _ _ _ _ _ => .inr (by simp [Stage.lights, hm])
  have hen : ∀ g, g.powers = true →
      (lamp allowed depth).Outline t c (pinWrite .lcdEn true) g fun _ x => x = .powered := fun g hg =>
    hkeep rfl hg rfl fun s tr i _ => ⟨fun _ => by simp [opening.openingAfter], (by simp), (by simp),
      fun _ => by simp [exec, Device.setPin], fun _ => by simp, (by simp)⟩
  have hrst : ∀ b, (lamp allowed depth).Outline t c (pinWrite .lcdRst b) .pulsed fun _ x => x = .pulsed := fun b =>
    hkeep rfl rfl rfl fun s tr i h => ⟨fun _ => by simp [opening.openingAfter], (by simp), (by simp),
      fun _ => by simpa [exec, Device.setPin] using h.supplied (.inr (.inl rfl)), (by simp), (by simp)⟩
  refine (hen _ rfl).seq fun _ => (hen _ rfl).seq fun _ => Outline.seq (m := .pulsed) ?_ fun _ =>
    (hrst _).seq fun _ => (hrst _).seq fun _ => Outline.seq (m := .inited) ?_ fun _ => ?_
  · refine hkeep rfl rfl rfl fun s tr i h => ⟨fun _ => ?_, (by simp), (by simp), fun _ => ?_, (by simp), (by simp)⟩
    · simp [opening.openingAfter, h.last rfl]
    · simpa [exec, Device.setPin] using h.supplied (.inl rfl)
  · refine hkeep rfl rfl rfl fun s tr i h => ⟨fun _ => by simp [opening.openingAfter], (by simp), (by simp),
      fun _ => ?_, (by simp),
      fun _ => by simp [initialised]⟩
    exact h.supplied (.inr (.inl rfl))
  · refine lamp_open ht rfl rfl (fun s tr i h => Opener.resting rfl) (fun _ => .inr fun s tr i h => ⟨?_, ?_⟩)
      (fun _ => .inr fun s i => by simp [exec, Device.setPin]) ?_ ?_
    · simpa [exec, Device.setPin] using h.supplied (.inr (.inr rfl))
    · simpa [initialised] using h.inited rfl
    · exact fun s tr i h e => .inl e
    · exact fun s tr i h e => .inl e

theorem lamp_openLcdDisplay (ht : t = .button ∨ t = .lcd) :
    (lamp allowed depth).Outline t c openLcdDisplay .idle fun _ x => x = .idle := by
  refine (lamp_load ht).bind fun (f : Nat) g hg => ?_
  subst hg
  split
  · refine lamp_open ht rfl rfl (fun s tr i h => Opener.resting rfl) (fun e => absurd e Bool.false_ne_true)
      (fun e => absurd e Bool.false_ne_true) ?_ ?_
    · exact fun s tr i h _ => .inl (Nat.le_succ_of_le (h.saw1 rfl))
    · exact fun s tr i h _ => .inl (h.saw1 rfl)
  · refine Outline.seq (m := .lighting) ?_ fun _ => ?_
    · refine lamp_open ht rfl rfl (fun s tr i h => Opener.started (.inl rfl) (by simp [opening.openingAfter]))
        (fun e => absurd e Bool.false_ne_true) (fun e => absurd e Bool.false_ne_true)
        (fun s tr i h _ => .inl (h.saw2 rfl)) fun _ _ _ _ _ => .inr rfl
    · exact lamp_open ht rfl rfl (fun s tr i h => Opener.resting rfl) (fun e => absurd e Bool.false_ne_true)
        (fun _ => .inr fun s i => by simp [exec, Device.setPin]) (fun s tr i h e => .inl e) fun s tr i h e => .inl e
  · refine Outline.seq (m := .powering) ?_ fun _ => lamp_lcdInit ht
    exact lamp_open ht rfl rfl (fun s tr i h => Opener.started (.inr rfl) (by simp [opening.openingAfter]))
      (fun e => absurd e Bool.false_ne_true) (fun e => absurd e Bool.false_ne_true)
      (fun _ _ _ _ _ => .inr rfl) fun _ _ _ _ _ => .inr rfl
  · show sawFlag f = .idle
    unfold sawFlag
    split <;> first | contradiction | rfl

end

/-! ### The timer thread -/

section
variable {c : Call} {s : Device} {tr : Trace} {gs : Thread → Stage} {g m : Stage}

/-- Nobody is opening when the timer thread may write the flag. -/
theorem none_opens {cfg : Conf} (hold : (lamp allowed depth).Holds gs cfg) (h : midOpen cfg = false) (t : Thread) :
    (gs t).opens = false := by
  by_contra hn
  have ho : (gs t).opens = true := by simpa using hn
  have hopening : opening t cfg.trace = true := (hold.1.opener t).opens ho
  rcases hold.2 t with hi | ⟨hcall, ht⟩
  · rw [hi] at ho
    cases ho
  · have hsome : (cfg.call t).isSome = true := Option.isSome_iff_ne_none.mpr hcall
    rcases ht ho with rfl | rfl <;> simp [midOpen, hsome, hopening] at h

theorem powers_opens (h : g.opens = false) : g.powers = false := by
  cases g <;> first | rfl | cases h

theorem lights_opens (h : g.opens = false) : g.lights = false := by
  cases g <;> first | rfl | cases h

theorem resting_update (hall : ∀ t, (gs t).opens = false) (hm : m.opens = false) (t : Thread) :
    (Function.update gs .timer m t).opens = false := by
  by_cases ht : t = .timer
  · subst ht
    simpa using hm
  · rw [Function.update_of_ne ht]
    exact hall t

/-- The timer thread writes 2 over a flag that is not 3, or 3. -/
theorem lamp_store {n : Nat} (hn : n = 3 ∨ n = 2 ∧ g = .dimming) (hm : m.opens = false)
    (hm2 : m = .dimming ∨ m = .dark → n = 2) (hm3 : m = .cut → n = 3) :
    (lamp allowed depth).Outline .timer c (store .lcdFlag n) g fun _ x => x = m := by
  refine Outline.move (.inr ⟨Option.some_ne_none c, fun e => absurd (hm.symm.trans e) Bool.false_ne_true⟩)
    (fun cfg gs i _ hhead hg hold hr => ?_) fun _ => rfl
  have hinv : Lamp gs cfg.state cfg.trace := hold.1
  have hall : ∀ t, (gs t).opens = false := none_opens hold (hr.1 ⟨rfl, by rw [hhead]; rfl⟩)
  have hrest := resting_update hall hm
  have hflag : (exec .timer (.store .lcdFlag n) i cfg.state).1.vars .lcdFlag = n := by
    rcases hn with rfl | ⟨rfl, -⟩ <;> simp [exec, Device.store, Var.width]
  show Lamp _ (exec .timer (.store .lcdFlag n) i cfg.state).1 _
  constructor
  · rw [hflag]
    omega
  · intro hle
    rw [hflag] at hle
    obtain ⟨rfl, rfl⟩ : n = 2 ∧ g = .dimming := hn.resolve_left (by omega)
    refine .inl ?_
    rcases hinv.supply (hinv.dimming hg) with ⟨he, hi⟩ | ⟨t, ht⟩
    · exact ⟨he, by simpa [initialised] using hi⟩
    · exact absurd ((powers_opens (hall t)).symm.trans ht) Bool.false_ne_true
  · intro hle
    rw [hflag] at hle
    omega
  · exact fun t => Opener.resting (hrest t)
  · intro e
    have htwo := hm2 (.inl (by simpa using e))
    omega
  · intro e
    rw [hflag, hm2 (.inr (by simpa using e))]
    exact ⟨rfl, lastOp_did_self ..⟩
  · intro e
    rw [hflag, hm3 (by simpa using e)]
    exact ⟨rfl, lastOp_did_self ..⟩
  · exact fun _ => hrest

theorem lamp_keep_timer {α : Type} {p : Code α} (hg : g = .idle ∨ g = .dimming)
    (hp : p.All fun o => unlit o = true) : (lamp allowed depth).Outline .timer c p g fun _ x => x = g := by
  have hopens : g.opens = false := by rcases hg with rfl | rfl <;> rfl
  refine Outline.keep (.inr ⟨Option.some_ne_none c, fun e => absurd (hopens.symm.trans e) Bool.false_ne_true⟩)
    (hp.mono fun o ho cfg gs i _ _ hgs hold _ => ?_) fun _ => rfl
  refine hold.1.unlit ho (hgs ▸ hopens) fun _ => ?_
  rw [hgs]
  rcases hg with rfl | rfl <;> exact ⟨by decide, by decide⟩

/-- The pin that goes with the write. -/
theorem lamp_switch {p : Pin} (h : (g = .dark ∧ p = .lcdBl) ∨ (g = .cut ∧ p = .lcdEn)) :
    (lamp allowed depth).Outline .timer c (pinWrite p false) g fun _ x => x = .idle := by
  refine Outline.move (.inl rfl) (fun cfg gs i _ _ hgs hold _ => ?_) fun _ => rfl
  have hinv : Lamp gs cfg.state cfg.trace := hold.1
  have hdc : gs .timer = .dark ∨ gs .timer = .cut := by rw [hgs]; exact h.imp And.left And.left
  have hall := hinv.alone hdc
  have hrest := resting_update (m := .idle) hall rfl
  show Lamp _ (exec .timer (.pinWrite p false) i cfg.state).1 _
  have htwo : g = .dark → cfg.state.vars .lcdFlag = 2 := fun e => (hinv.dark (hgs.trans e)).1
  have hthree : g = .cut → cfg.state.vars .lcdFlag = 3 := fun e => (hinv.cut (hgs.trans e)).1
  constructor
  · exact hinv.range
  · intro hle
    have hle' : cfg.state.vars .lcdFlag ≤ 2 := hle
    rcases h with ⟨rfl, rfl⟩ | ⟨rfl, rfl⟩
    · refine .inl ?_
      rcases hinv.supply hle' with ⟨he, hi⟩ | ⟨t, ht⟩
      · exact ⟨by simpa [exec, Device.setPin] using he, by simpa [initialised] using hi⟩
      · exact absurd ((powers_opens (hall t)).symm.trans ht) Bool.false_ne_true
    · have := hthree rfl
      omega
  · intro hle
    have hle' : cfg.state.vars .lcdFlag ≤ 1 := hle
    rcases h with ⟨rfl, rfl⟩ | ⟨rfl, rfl⟩
    · have := htwo rfl
      omega
    · have := hthree rfl
      omega
  · exact fun t => Opener.resting (hrest t)
  · intro e
    simp at e
  · intro e
    simp at e
  · intro e
    simp at e
  · intro e
    simp at e

theorem lamp_enterLowPower : (lamp allowed depth).Outline .timer c enterLowPower .idle fun _ x => x = .idle := by
  have hclose : (lamp allowed depth).Outline .timer c closeLcdVcc .idle fun _ x => x = .idle := by
    refine Outline.seq (m := .cut) (lamp_store (.inl rfl) rfl (by simp) fun _ => rfl) fun _ => ?_
    refine (lamp_switch (.inr ⟨rfl, rfl⟩)).seq fun _ => lamp_keep_timer (.inl rfl) ?_
    repeat' first | intro _ | with_reducible apply All.bind | exact All.perform rfl
  have hbefore : (lamp allowed depth).Outline .timer c beforSleep .idle fun _ x => x = .idle := by
    refine (lamp_keep_timer (.inl rfl) ?_).seq fun _ => (lamp_keep_timer (.inl rfl) ?_).seq fun _ =>
      (lamp_keep_timer (.inl rfl) ?_).seq fun _ => (lamp_keep_timer (.inl rfl) ?_).seq fun _ => hclose
    all_goals
      simp only [ledInit, motoPinDeInit, flashDeInit, wifiDeInit]
      repeat' first | intro _ | with_reducible apply All.bind | exact All.perform rfl
  refine (lamp_keep_timer (.inl rfl) (All.perform rfl)).seq fun _ => hbefore.seq fun _ => lamp_keep_timer (.inl rfl) ?_
  refine All.bind (All.perform rfl) fun _ => All.bind (All.perform rfl) fun _ => All.bind (All.perform rfl) fun _ =>
    All.bind (built_afterWake (All.compositional _) fun p b hp hen => All.perform ?_) fun _ =>
      All.when (all_jumptoMainWin rfl rfl rfl)
  cases p <;> first | rfl | exact absurd rfl hen | exact hp

theorem lamp_backlight : (lamp allowed depth).Outline .timer c lcdBacklightTimerCallback .dimming fun _ x => x = .idle :=
  Outline.seq (m := .dimming) (lamp_store (.inr ⟨rfl, rfl⟩) rfl (fun _ => rfl) (by simp)) fun _ =>
    Outline.seq (m := .dark) (lamp_store (.inr ⟨rfl, rfl⟩) rfl (fun _ => rfl) (by simp)) fun _ =>
      lamp_switch (.inl ⟨rfl, rfl⟩)

theorem lamp_motoCycleTimerCallback :
    (lamp allowed depth).Outline .timer c motoCycleTimerCallback .idle fun _ x => x = .idle := by
  exact lamp_keep_timer (.inl rfl) (all_motoCycleTimerCallback rfl rfl rfl (by rintro x (rfl | rfl) <;> rfl)
    (all_countUp rfl (fun _ => rfl) fun _ => all_flashSet rfl rfl rfl) rfl)

end

/-! ### The other threads -/

section
variable {t : Thread} {c : Call}

theorem lamp_unlit {o : Op} (ht : t ≠ .timer) (ho : unlit o = true) : (lamp allowed depth).Keeps t c .idle o :=
  fun _ _ _ _ _ hg hold _ => hold.1.unlit ho (by rw [hg]; rfl) fun e => absurd e ht

theorem lamp_perform {o : Op} (ht : t ≠ .timer) (ho : unlit o = true) :
    (lamp allowed depth).Outline t c (perform o) .idle fun _ x => x = .idle :=
  Outline.keep (.inl rfl) (All.perform (lamp_unlit ht ho)) fun _ => rfl

theorem unlit_of_may {o : Op} (ht : t ≠ .timer ∧ t ≠ .button ∧ t ≠ .lcd) (h : may t o = true) : unlit o = true := by
  cases o with
  | store v n =>
    cases t <;> cases v <;>
      first | rfl | exact absurd rfl ht.1 | exact absurd rfl ht.2.1 | exact absurd rfl ht.2.2 | cases h
  | pinWrite p b =>
    cases t <;> cases p <;>
      first | rfl | exact absurd rfl ht.1 | exact absurd rfl ht.2.1 | exact absurd rfl ht.2.2 | cases h
  | mark m =>
    cases t <;> cases m <;>
      first | rfl | exact absurd rfl ht.1 | exact absurd rfl ht.2.1 | exact absurd rfl ht.2.2 | cases h
  | _ => rfl

theorem unlit_of_winMay {w : Win} {o : Op} (h : winMay w o = true) : unlit o = true := by
  have hown := (Bool.and_eq_true_iff.mp h).2
  cases o with
  | store v n => cases v <;> first | rfl | cases hown
  | pinWrite p b =>
    have hp : p = .ledR ∨ p = .ledG := by simp [ownMay] at hown; exact hown.2
    rcases hp with rfl | rfl <;> rfl
  | mark m => cases m <;> first | rfl | cases hown
  | _ => rfl

theorem unlit_of_taskMay {o : Op} (h : taskMay o = true) : unlit o = true := by
  cases o with
  | store v n => cases v <;> first | rfl | cases h
  | mark m => cases m <;> first | rfl | cases h
  | pinWrite p b => cases h
  | _ => rfl

theorem lamp_motoCycle (caller : Caller) :
    (lamp allowed depth).Outline .lcd c (motoCycle caller) .idle fun _ x => x = .idle :=
  built_motoCycle (P := fun p => (lamp allowed depth).Outline .lcd c p .idle fun _ x => x = .idle)
    (Q := fun p => (lamp allowed depth).Outline .lcd c p .idle fun _ x => x = .idle) Outline.compositional
    (fun o ho => lamp_perform (by decide) (unlit_of_winMay (winMay_of_requestMay ho)))
    fun _ hp => (lamp_perform (by decide) rfl).seq fun _ => hp

theorem lamp_guiWinDisplay (n : Nat) :
    (lamp allowed depth).Outline .lcd c (guiWinDisplay n) .idle fun _ x => x = .idle := by
  induction n with
  | zero => rfl
  | succ n ih =>
    refine (lamp_perform (by decide) rfl).seq fun (top : Option Win) => ?_
    cases top with
    | none => rfl
    | some w =>
      exact (lamp_perform (by decide) rfl).seq fun _ =>
        built_winFun Outline.compositional ih fun o ho => lamp_perform (by decide) (unlit_of_winMay ho)

theorem lamp_lcd (hc : c.thread = .lcd) :
    (lamp allowed depth).Outline .lcd c (body depth c) .idle fun _ x => x = .idle := by
  cases c with
  | lcdTask =>
    exact built_lcdTaskEntry Outline.compositional (lamp_guiWinDisplay depth) (lamp_openLcdDisplay (.inr rfl))
      (lamp_motoCycle _) fun o ho => lamp_perform (by decide) (unlit_of_taskMay ho)
  | motoCycle caller => exact lamp_motoCycle caller
  | scheduleSave k =>
    exact built_scheduleSave Outline.compositional k fun o ho => lamp_perform (by decide) (unlit_of_winMay ho)
  | _ => cases hc

theorem lamp_button (k : Key) :
    (lamp allowed depth).Outline .button c (keyCallback k) .idle fun _ x => x = .idle := by
  have hrest : ∀ {p : Code Unit}, (p.All fun o => unlit o = true) →
      (lamp allowed depth).Outline .button c p .idle fun _ x => x = .idle := fun hp =>
    Outline.keep (.inl rfl) (hp.mono fun o ho => lamp_unlit (by decide) ho) fun _ => rfl
  cases k
  all_goals
    refine (lamp_openLcdDisplay (.inl rfl)).seq fun _ => hrest ?_
    simp only [screenTimerRefresh, incr]
    repeat' first
      | intro _ | with_reducible apply All.bind | with_reducible apply All.when | exact All.perform rfl

end

/-! ### Every call -/

theorem Lamp.began {gs : Thread → Stage} {t : Thread} {c : Call} {s : Device} {tr : Trace} (h : Lamp gs s tr)
    (hg : gs t = .idle) : Lamp gs (enter c s) (.began t c :: tr) := by
  have hflag : (enter c s).vars .lcdFlag = s.vars .lcdFlag := enter_vars (fun _ => by simp) (by decide) c s
  have hlast : ∀ u, gs u ≠ .idle → lastOp u (.began t c :: tr) = lastOp u tr := fun u hu =>
    lastOp_began_of_ne (fun e => hu (by rw [← e]; exact hg)) _ _
  constructor
  · rw [hflag]
    exact h.range
  · rw [hflag, enter_pins]
    exact h.supply
  · rw [hflag, enter_pins]
    exact h.light
  · intro u
    by_cases hu : gs u = .idle
    · rw [hu]
      exact Opener.resting rfl
    · have hne : t ≠ u := fun e => hu (by rw [← e]; exact hg)
      refine ⟨fun e => ?_, ?_, ?_, ?_, fun e => ?_, (h.opener u).inited⟩
      · rw [opening, if_neg hne]
        exact (h.opener u).opens e
      · rw [hflag]
        exact (h.opener u).saw1
      · rw [hflag]
        exact (h.opener u).saw2
      · rw [enter_pins]
        exact (h.opener u).supplied
      · rw [hlast u hu]
        exact (h.opener u).last e
  · rw [hflag]
    exact h.dimming
  · intro e
    rw [hflag, hlast .timer (by rw [e]; decide)]
    exact h.dark e
  · intro e
    rw [hflag, hlast .timer (by rw [e]; decide)]
    exact h.cut e
  · exact h.alone

/-- The timer thread sets out to darken a display that has its supply. -/
theorem Lamp.dim {gs : Thread → Stage} {s : Device} {tr : Trace} (h : Lamp gs s tr) (hg : gs .timer = .idle)
    (hf : s.vars .lcdFlag ≤ 2) : Lamp (Function.update gs .timer .dimming) s tr := by
  have hother : ∀ (f : Stage → Bool), f .idle = false → (∃ t, f (gs t) = true) →
      ∃ t, f (Function.update gs .timer .dimming t) = true := by
    rintro f hidle ⟨t, ht⟩
    have hne : t ≠ .timer := by
      rintro rfl
      rw [hg, hidle] at ht
      cases ht
    exact ⟨t, by rw [Function.update_of_ne hne]; exact ht⟩
  constructor
  · exact h.range
  · exact fun e => (h.supply e).imp_right (hother _ rfl)
  · exact fun e => (h.light e).imp_right (hother _ rfl)
  · intro t
    by_cases ht : t = .timer
    · subst ht
      rw [Function.update_self]
      exact Opener.resting rfl
    · rw [Function.update_of_ne ht]
      exact h.opener t
  · exact fun _ => hf
  all_goals
    intro e
    simp at e

theorem lamp_begins (c : Call) : (lamp allowed depth).Begins c.thread c := by
  have hidle : ∀ x, (lamp allowed depth).At c.thread none x → x = .idle := fun x hx => by simpa [lamp] using hx
  have henter : ∀ cfg gs, (lamp allowed depth).Holds gs cfg → (lamp allowed depth).Rule cfg (.start c.thread c) →
      gs c.thread = .idle → c.enabled cfg.state = true →
      (lamp allowed depth).Inv gs (enter c cfg.state) (.began c.thread c :: cfg.trace) := fun cfg gs hold _ hg _ =>
    hold.1.began hg
  by_cases hb : c = .expire .screenBacklight
  · -- the rule gives the timer thread a display with supply to darken
    subst hb
    intro cfg gs hnone _ hold hr
    have hg : gs .timer = .idle := by
      refine hidle _ ?_
      have := hold.2 .timer
      rwa [show cfg.call .timer = none by simp [Config.call, show cfg.task .timer = none from hnone]] at this
    have hbegan : Lamp gs (enter (.expire .screenBacklight) cfg.state) _ := hold.1.began hg
    have hflag : cfg.state.vars .lcdFlag ≤ 2 := by
      have hne : cfg.state.vars .lcdFlag ≠ 3 := hr rfl
      have := hold.1.range
      omega
    exact ⟨.dimming, .inr ⟨Option.some_ne_none _, fun e => absurd e Bool.false_ne_true⟩, hbegan.dim hg hflag,
      lamp_backlight.mono fun _ _ e => .inl e⟩
  by_cases ht : c.thread = .timer
  · refine begins_outline hidle (.inl rfl) henter ?_
    have hbody : (lamp allowed depth).Outline .timer c (body depth c) .idle fun _ x => x = .idle := by
      cases c with
      | expire x =>
        cases x with
        | motoCycle => exact lamp_motoCycleTimerCallback
        | screenBacklight => exact absurd rfl hb
        | screenVcc =>
          exact Outline.seq (m := .idle) (lamp_store (.inl rfl) rfl (by simp) (by simp)) fun _ => lamp_enterLowPower
        | lowPower => exact lamp_enterLowPower
      | expireSemJump => exact lamp_keep_timer (.inl rfl) (All.perform rfl)
      | enterLowPower => exact lamp_enterLowPower
      | _ => cases ht
    rw [ht]
    exact hbody.mono fun _ _ e => .inl e
  by_cases hl : c.thread = .lcd
  · refine begins_outline hidle (.inl rfl) henter ?_
    rw [hl]
    exact (lamp_lcd hl).mono fun _ _ e => .inl e
  by_cases hk : ∃ k, c = .key k
  · obtain ⟨k, rfl⟩ := hk
    exact begins_outline hidle (.inl rfl) henter ((lamp_button k).mono fun _ _ e => .inl e)
  · have hbutton : c.thread ≠ .button := by
      intro e
      cases c with
      | key k => exact hk ⟨k, rfl⟩
      | _ => cases e
    exact begins_quiet hidle (fun _ => .inl rfl) henter fun o ho => lamp_unlit ht (unlit_of_may ⟨ht, hbutton, hl⟩ ho)

/-- `LCD_Flag` tells the truth about the display in every state of a run that keeps
to the rule. -/
theorem flag_tells_truth (allowed : Call → Bool) (depth : Nat) (flash : Nat → Nat) (as : List Act)
    (h : (board allowed depth).Admits DisplayRule (start flash) as) :
    TellsTruth ((board allowed depth).run (start flash) as) := by
  have hstart : (lamp allowed depth).Good (fun _ => .idle) (start flash) := by
    refine Good.boot ?_ fun _ => .inl rfl
    refine ⟨?_, fun _ => .inl ⟨?_, rfl⟩, fun _ => .inl ?_, fun _ => Opener.resting rfl, by simp, by simp, by simp,
      by simp⟩
    · rw [boot_vars (fun _ => rfl) (fun _ => by simp) (by decide)]
      exact Nat.zero_le 3
    · rw [boot_pins]
      rfl
    · rw [boot_pins]
      rfl
  obtain ⟨gs, hgood⟩ := run_good (begins_board fun c _ => lamp_begins c) hstart h
  intro hopen
  have hall := none_opens hgood.holds hopen
  refine ⟨fun hf => (hgood.1.supply hf).resolve_right ?_, fun hf => (hgood.1.light hf).resolve_right ?_⟩
  · rintro ⟨t, ht⟩
    exact absurd ((powers_opens (hall t)).symm.trans ht) Bool.false_ne_true
  · rintro ⟨t, ht⟩
    exact absurd ((lights_opens (hall t)).symm.trans ht) Bool.false_ne_true

/-- A timer expires and its callback runs to its end; a key ends stop mode. -/
def expires (x : Timer) : List Act := alone (.expire x) {level := true} 40

/-- A key press, as far as the key's callback goes. -/
def pressKey (k : Key) : List Act := alone (.key k) {} 20

/-- The light goes out, a key brings it back, the supply goes, a key wakes the
controller and lights the display again. -/
def idleEvening : List Act :=
  expires .screenBacklight ++ pressKey .k0 ++ expires .screenVcc ++ pressKey .k0 ++ pressKey .k0

theorem flag_tells_truth_idleEvening :
    (board (fun _ => true) 2).Admits DisplayRule (start fun _ => 0) idleEvening ∧
    TellsTruth ((board (fun _ => true) 2).run (start fun _ => 0) idleEvening) :=
  ⟨by decide +kernel, flag_tells_truth (fun _ => true) 2 (fun _ => 0) idleEvening (by decide +kernel)⟩

/-- An hourly check finds nothing to do and sends the controller to stop mode, with
the screen timers still running: the backlight timer expires after the next alarm. -/
def quietHour : List Act :=
  .start .irq .rtcAlarm :: alone .rtcCheck {} 10 ++ alone (.expire .lowPower) {} 40 ++
    alone (.expire .screenBacklight) {} 3

theorem flag_lies_quietHour : ¬ TellsTruth ((board (fun _ => true) 2).run (start fun _ => 0) quietHour) := by
  decide +kernel

end Backwash.Lcd
