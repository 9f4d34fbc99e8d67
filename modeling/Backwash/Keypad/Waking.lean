import Mathlib.Data.List.Induction
import Backwash.Concurrent.Owner
import Backwash.Firmware.Obligations
import Backwash.Keypad.Scan

/-! The press that wakes the display.

`LCD_Flag` is 2 with the light off and 3 without supply; the first callback of a press brings
it to 1 and the second to 0, and a key counts once it finds 0 there. A press may be many
callbacks: K1 repeats `K1_Sem_Release` while it is held, and K2, held, counts its repeats
without a look at the flag. What a press does is a matter of its callbacks alone, as long as
no other thread writes the flag meanwhile. -/
namespace Backwash.Keypad
open Concurrent Prog Firmware

/-! ### What the callbacks come to -/

/-- The flags the callbacks go by, and how many tokens they have released. -/
structure Hand where
  lcd : Nat
  long : Nat
  counter : Nat
  released : Nat

namespace Hand

/-- The display opens by a step. -/
def opened (x : Hand) : Hand :=
  {x with lcd := if x.lcd = 1 then 0 else if x.lcd = 2 ∨ x.lcd = 3 then 1 else x.lcd}

def click (x : Hand) : Hand := if x.opened.lcd = 0 then {x.opened with released := x.released + 1} else x.opened

/-- A repeat of a long press of K2. -/
def hold (x : Hand) : Hand :=
  if x.long = 1 then x.opened
  else if (x.counter + 1) % 2 ^ 8 > 10 then {x.opened with long := 1, counter := 0, released := x.released + 1}
  else {x.opened with counter := (x.counter + 1) % 2 ^ 8}

def letGo (x : Hand) : Hand := {x.opened with long := 0, counter := 0}

def callback : Firmware.Key → Hand → Hand
  | .k2Long => hold
  | .k2LongFree => letGo
  | _ => click

def after (x : Hand) (keys : List Firmware.Key) : Hand := keys.foldl (fun x k => callback k x) x

theorem released_click (x : Hand) : x.released ≤ x.click.released ∧ x.click.released ≤ x.released + 1 := by
  unfold click
  split
  · exact ⟨Nat.le_succ _, Nat.le_refl _⟩
  · exact ⟨Nat.le_refl _, Nat.le_succ _⟩

theorem released_callback (k : Firmware.Key) (x : Hand) :
    x.released ≤ (callback k x).released ∧ (callback k x).released ≤ x.released + 1 := by
  cases k with
  | k2Long => simp only [callback, hold, opened]; split <;> [skip; split] <;> simp
  | k2LongFree => simp [callback, letGo, opened]
  | _ => exact released_click x

theorem released_after (x : Hand) (keys : List Firmware.Key) : x.released ≤ (x.after keys).released := by
  induction keys generalizing x with
  | nil => exact Nat.le_refl _
  | cons k rest ih => exact Nat.le_trans (released_callback k x).1 (ih _)

theorem after_append (x : Hand) (keys keys' : List Firmware.Key) : x.after (keys ++ keys') = (x.after keys).after keys' :=
  List.foldl_append

theorem released_prefix {p keys : List Firmware.Key} (h : p <+: keys) (x : Hand) :
    (x.after p).released ≤ (x.after keys).released := by
  obtain ⟨rest, rfl⟩ := h
  rw [after_append]
  exact released_after _ rest

end Hand

/-! ### A press -/

/-- A click, or a long press with its repeats. -/
inductive Press where
  | click | long (repeats : Nat)

def Press.events : Press → List Event
  | .click => [.dowm]
  | .long n => List.replicate n .long ++ [.longFree]

/-- The callbacks of a press. -/
def Press.callbacks (p : Press) (k : Key) : List Firmware.Key := p.events.filterMap (attached k)

/-- The callbacks begun, latest first. -/
def begun : Trace → List Firmware.Key
  | [] => []
  | .began _ (.key k) :: tr => k :: begun tr
  | _ :: tr => begun tr

/-- The tokens the button thread has released. -/
def tokens : Trace → Nat
  | [] => 0
  | .did .button (.semRelease _) _ :: tr => tokens tr + 1
  | _ :: tr => tokens tr

/-- The flags as they are. -/
def Hand.ofConfig (cfg : Conf) : Hand :=
  ⟨cfg.state.vars .lcdFlag, cfg.state.vars .k2LongFlag, cfg.state.vars .k2LongCounter, tokens cfg.trace⟩

/-- The callbacks begun since are the first of the press. -/
def Through (keys base : List Firmware.Key) (tr : Trace) : Prop := ∃ p, p <+: keys ∧ begun tr = p.reverse ++ base

/-- While the press lasts its callbacks are begun in order, and no other thread writes `LCD_Flag`. -/
def PressRule (keys base : List Firmware.Key) (cfg : Conf) : Act → Prop
  | .start t c => Through keys base (.began t c :: cfg.trace)
  | .step t _ => t ≠ .button → ∀ o ∈ cfg.head t, ∀ n, o ≠ .store .lcdFlag n

/-- The press releases no token, however far it comes and whatever the other threads do meanwhile. -/
def DoesNothing (depth : Nat) (cfg : Conf) (keys : List Firmware.Key) : Prop :=
  ∀ as, (board (fun _ => true) depth).Admits (PressRule keys (begun cfg.trace)) cfg as →
    tokens ((board (fun _ => true) depth).run cfg as).trace = tokens cfg.trace

/-! ### The button thread in a press -/

/-- The flags with the callbacks begun up to now. -/
structure Handling extends Hand where
  begun : List Firmware.Key

namespace Handling

def can : (o : Op) → Handling → Res o → Prop
  | .load v, x, r => (v = .lcdFlag → r = x.lcd) ∧ (v = .k2LongFlag → r = x.long) ∧ (v = .k2LongCounter → r = x.counter)
  | _, _, _ => True

def after : (o : Op) → Res o → Handling → Handling
  | .store v n, _, x => match v with
    | .lcdFlag => {x with lcd := n % 2 ^ 8}
    | .k2LongFlag => {x with long := n % 2 ^ 8}
    | .k2LongCounter => {x with counter := n % 2 ^ 8}
    | _ => x
  | .semRelease _, _, x => {x with released := x.released + 1}
  | _, _, x => x

structure Sees (x : Handling) (s : Device) (tr : Trace) : Prop where
  lcd : s.vars .lcdFlag = x.lcd
  long : s.vars .k2LongFlag = x.long
  counter : s.vars .k2LongCounter = x.counter
  released : tokens tr = x.released
  begun : Keypad.begun tr = x.begun

section
variable {x : Handling} {s : Device} {tr : Trace} {t : Thread} {o : Op} {i : Input}

theorem Sees.can (h : Sees x s tr) : x.can o (exec .button o i s).2 := by
  cases o with
  | load v => exact ⟨fun e => e ▸ h.lcd, fun e => e ▸ h.long, fun e => e ▸ h.counter⟩
  | _ => exact trivial

/-- An operation that writes none of the flags. -/
theorem Sees.keep (h : Sees x s tr) (hl : ∀ n, o ≠ .store .lcdFlag n) (hf : ∀ n, o ≠ .store .k2LongFlag n)
    (hc : ∀ n, o ≠ .store .k2LongCounter n) (hr : tokens (.did t o i :: tr) = tokens tr) :
    Sees x (exec t o i s).1 (.did t o i :: tr) :=
  ⟨(exec_vars hl (fun _ => by simp) (by simp) i).trans h.lcd, (exec_vars hf (fun _ => by simp) (by simp) i).trans h.long,
    (exec_vars hc (fun _ => by simp) (by simp) i).trans h.counter, hr.trans h.released, h.begun⟩

theorem tokens_did (h : t ≠ .button ∨ ∀ k, o ≠ .semRelease k) : tokens (.did t o i :: tr) = tokens tr := by
  cases o with
  | semRelease k =>
    have ht : t ≠ .button := h.resolve_right fun hk => hk k rfl
    cases t <;> first | rfl | exact absurd rfl ht
  | _ => cases t <;> rfl

theorem Sees.own (h : Sees x s tr) (hmay : may .button o = true) :
    Sees (x.after o (exec .button o i s).2) (exec .button o i s).1 (.did .button o i :: tr) := by
  cases o with
  | store v n =>
    have hr : tokens (.did .button (.store v n) i :: tr) = x.released := h.released
    cases v with
    | lcdFlag => exact ⟨by simp [exec, Device.store, after, Var.width], h.long, h.counter, hr, h.begun⟩
    | k2LongFlag => exact ⟨h.lcd, by simp [exec, Device.store, after, Var.width], h.counter, hr, h.begun⟩
    | k2LongCounter => exact ⟨h.lcd, h.long, by simp [exec, Device.store, after, Var.width], hr, h.begun⟩
    | _ => cases hmay
  | semRelease k => exact ⟨h.lcd, h.long, h.counter, congrArg (· + 1) h.released, h.begun⟩
  | _ => first | cases hmay; done | exact h.keep (by simp) (by simp) (by simp) (tokens_did (.inr (by simp)))

theorem Sees.other (h : Sees x s tr) (ht : t ≠ .button) (hmay : may t o = true) (hl : ∀ n, o ≠ .store .lcdFlag n) :
    Sees x (exec t o i s).1 (.did t o i :: tr) := by
  refine h.keep hl (fun n e => ?_) (fun n e => ?_) (tokens_did (.inl ht))
  all_goals
    subst e
    cases t <;> first | exact absurd rfl ht | cases hmay

theorem Sees.enter (h : Sees x s tr) {c : Call} {keys : List Firmware.Key}
    (hk : Keypad.begun (.began t c :: tr) = keys) : Sees {x with begun := keys} (enter c s) (.began t c :: tr) := by
  have hvars : ∀ v, v = .lcdFlag ∨ v = .k2LongFlag ∨ v = .k2LongCounter → (Firmware.enter c s).vars v = s.vars v := by
    intro v hv
    refine enter_vars (fun k e => ?_) (fun e => ?_) c s
    all_goals
      subst e
      simp at hv
  exact ⟨(hvars _ (.inl rfl)).trans h.lcd, (hvars _ (.inr (.inl rfl))).trans h.long,
    (hvars _ (.inr (.inr rfl))).trans h.counter, h.released, hk⟩

end

end Handling

/-- The button thread in a press of callbacks `keys`, begun with the flags `start`. -/
def pressing (start : Hand) (keys base : List Firmware.Key) (depth : Nat) : Owner (board (fun _ => true) depth) Handling where
  can := Handling.can
  after := Handling.after
  Safe := fun x => x.released ≤ (start.after keys).released ∧ ∃ p, p <+: keys ∧ x.begun = p.reverse ++ base
  thread := .button
  may := fun t o => may t o = true
  Rule := PressRule keys base
  Sees := Handling.Sees
  Rest := fun x => ∃ p, p <+: keys ∧ x.begun = p.reverse ++ base ∧ x.toHand = start.after p
  first := fun c x => match c with
    | .key k => {x with begun := k :: x.begun}
    | _ => x
  body_may := @ready_may (fun _ => true) depth
  own := fun hmay _ _ hsees => ⟨hsees.can, hsees.own hmay⟩
  other := fun ht hmay hhead hr hsees => hsees.other ht hmay (hr ht _ hhead)
  begins := fun {cfg x c} hready hr hrest hsafe hsees => by
    have hthread : Thread.button = c.thread ∧ c.enabled cfg.state = true := by simpa [board] using hready
    cases c with
    | key k =>
      have hbegun : begun (.began .button (.key k) :: cfg.trace) = k :: x.begun := congrArg (k :: ·) hsees.begun
      obtain ⟨p, hp, hpk⟩ := hr
      exact ⟨⟨hsafe.1, p, hp, hbegun.symm.trans hpk⟩, hsees.enter hbegun⟩
    | _ => exact absurd hthread.1 (by simp [Call.thread])
  begins_other := fun {cfg x t c} ht hready _ hsees => by
    have hthread : t = c.thread ∧ c.enabled cfg.state = true := by simpa [board] using hready
    have hbegun : begun (.began t c :: cfg.trace) = x.begun := by
      cases c with
      | key k => exact absurd hthread.1 ht
      | _ => exact hsees.begun
    exact hsees.enter hbegun

section
variable {start : Hand} {keys base : List Firmware.Key} {depth : Nat} {x : Handling} {α β : Type}

theorem press_skip {o : Op} {f : Res o → Code β} {Q : β → Handling → Prop} (ho : ∀ r, x.after o r = x)
    (hx : (pressing start keys base depth).Safe x)
    (hf : ∀ r, x.can o r → (pressing start keys base depth).Run (f r) x Q) :
    (pressing start keys base depth).Run (perform o >>= f) x Q := by
  refine Sight.Run.step fun r hr => ?_
  show (pressing start keys base depth).Safe (x.after o r) ∧ (pressing start keys base depth).Run (f r) (x.after o r) Q
  rw [ho r]
  exact ⟨hx, hf r hr⟩

theorem press_aside {p : Code α} (hp : p.All fun o => ∀ r (y : Handling), y.after o r = y)
    (hx : (pressing start keys base depth).Safe x) : (pressing start keys base depth).Run p x fun _ y => y = x := by
  refine Sight.Run.all (D := fun y => y = x) (hp.mono fun o ho y r hy _ => ?_) rfl
  have hafter : y.after o r = x := (ho r y).trans hy
  exact ⟨show (pressing start keys base depth).Safe (y.after o r) from hafter ▸ hx, hafter⟩

theorem press_openLcdDisplay (hx : (pressing start keys base depth).Safe x) :
    (pressing start keys base depth).Run openLcdDisplay x fun _ y => y = {x with toHand := x.opened} := by
  refine press_skip (fun _ => rfl) hx fun (n : Nat) hn => ?_
  obtain rfl : n = x.lcd := hn.1 rfl
  have hinit : lcdInit.All fun o => ∀ r (y : Handling), y.after o r = y := by
    unfold lcdInit
    repeat' first | intro _ | with_reducible apply All.bind | exact All.perform fun _ _ => rfl
  split
  next h => exact Sight.Run.perform fun _ _ => ⟨hx, by simp [Handling.after, Hand.opened, h, pressing]⟩
  next h =>
    refine Sight.Run.step fun _ _ => ⟨hx, (press_aside (x := x.after (.store .lcdFlag 1) ()) (All.perform fun _ _ => rfl)
      hx).mono fun _ y hy => ?_⟩
    rw [hy]
    simp [Handling.after, Hand.opened, h]
  next h =>
    refine Sight.Run.step fun _ _ => ⟨hx, (press_aside (x := x.after (.store .lcdFlag 1) ()) hinit hx).mono
      fun _ y hy => ?_⟩
    rw [hy]
    simp [Handling.after, Hand.opened, h]
  next h1 h2 h3 =>
    have hsame : x.opened = x.toHand := by
      have hne : ¬ (x.lcd = 2 ∨ x.lcd = 3) := not_or.mpr ⟨h2, h3⟩
      rw [Hand.opened, if_neg h1, if_neg hne]
    show x = {x with toHand := x.opened}
    rw [hsame]

/-- Every callback opens the display and has the screen timers run anew. -/
theorem press_opened {p : Code β} {Q : β → Handling → Prop} (hx : (pressing start keys base depth).Safe x)
    (hp : (pressing start keys base depth).Run p {x with toHand := x.opened} Q) :
    (pressing start keys base depth).Run (do
      openLcdDisplay
      screenTimerRefresh
      p) x Q := by
  refine Sight.Run.bind (press_openLcdDisplay hx) fun _ y hy => ?_
  subst hy
  refine Sight.Run.bind (press_aside (x := {x with toHand := x.opened}) ?_ hx) fun _ z hz => hz ▸ hp
  exact All.bind (All.perform fun _ _ => rfl) fun _ => All.perform (o := Op.timerStart .screenVcc) fun _ _ => rfl

theorem press_click (k : Sem) (hx : (pressing start keys base depth).Safe x)
    (hb : x.click.released ≤ (start.after keys).released) :
    (pressing start keys base depth).Run (keySemRelease k) x fun _ y => y = {x with toHand := x.click} := by
  refine press_opened hx (press_skip (fun _ => rfl) hx fun (n : Nat) hn => ?_)
  obtain rfl : n = x.opened.lcd := hn.1 rfl
  refine Sight.Run.when (fun h => Sight.Run.perform fun _ _ => ?_) fun h => ?_
  · rw [Hand.click, if_pos h] at hb ⊢
    exact ⟨⟨hb, hx.2⟩, rfl⟩
  · rw [Hand.click, if_neg h]

theorem press_hold (hx : (pressing start keys base depth).Safe x)
    (hb : x.hold.released ≤ (start.after keys).released) :
    (pressing start keys base depth).Run k2LongSemRelease x fun _ y => y = {x with toHand := x.hold} := by
  refine press_opened hx (press_skip (fun _ => rfl) hx fun (f : Nat) hf => ?_)
  obtain rfl : f = x.long := hf.2.1 rfl
  refine Sight.Run.when (fun h => ?_) fun h => ?_
  · refine press_skip (fun _ => rfl) hx fun (n : Nat) hn => ?_
    obtain rfl : n = x.counter := hn.2.2 rfl
    refine Sight.Run.step fun _ _ => ⟨hx, press_skip (fun _ => rfl) hx fun (n : Nat) hn => ?_⟩
    obtain rfl : n = (x.counter + 1) % 2 ^ 8 := hn.2.2 rfl
    rw [Hand.hold, if_neg h] at hb ⊢
    refine Sight.Run.when (fun h10 => ?_) fun h10 => ?_
    · rw [if_pos h10] at hb ⊢
      exact Sight.Run.step fun _ _ => ⟨hx, Sight.Run.step fun _ _ => ⟨hx, Sight.Run.perform fun _ _ => ⟨⟨hb, hx.2⟩, rfl⟩⟩⟩
    · rw [if_neg h10]
      rfl
  · rw [Hand.hold, if_pos (not_not.mp h)]

theorem press_letGo (hx : (pressing start keys base depth).Safe x) :
    (pressing start keys base depth).Run k2LongFreeRelease x fun _ y => y = {x with toHand := x.letGo} :=
  press_opened hx (Sight.Run.step fun _ _ => ⟨hx, Sight.Run.perform fun _ _ => ⟨hx, rfl⟩⟩)

theorem press_callback (k : Firmware.Key) (hx : (pressing start keys base depth).Safe x)
    (hb : (Hand.callback k x.toHand).released ≤ (start.after keys).released) :
    (pressing start keys base depth).Run (keyCallback k) x fun _ y => y = {x with toHand := Hand.callback k x.toHand} := by
  cases k with
  | k0 => exact press_click .k0 hx hb
  | k1 => exact press_click .k1 hx hb
  | k2 => exact press_click .k2 hx hb
  | k2Long => exact press_hold hx hb
  | k2LongFree => exact press_letGo hx

end

/-! ### Every run of a press -/

theorem begun_cancel {p q base : List Firmware.Key} (h : p.reverse ++ base = q.reverse ++ base) : p = q :=
  List.reverse_injective (List.append_cancel_right h)

section
variable {keys : List Firmware.Key} {depth : Nat} {cfg : Conf} {as : List Act}

theorem press_seen (hidle : cfg.task .button = none)
    (hleft : ∀ t c p, cfg.task t = some (c, p) → p.All fun o => may t o = true)
    (ha : (board (fun _ => true) depth).Admits (PressRule keys (begun cfg.trace)) cfg as) :
    ∃ y : Handling, y.released ≤ ((Hand.ofConfig cfg).after keys).released ∧
      y.Sees ((board (fun _ => true) depth).run cfg as).state ((board (fun _ => true) depth).run cfg as).trace ∧
      (((board (fun _ => true) depth).run cfg as).task .button = none →
        ∃ p, p <+: keys ∧ y.begun = p.reverse ++ begun cfg.trace ∧ y.toHand = (Hand.ofConfig cfg).after p) := by
  have hbegun : ∃ p, p <+: keys ∧ begun cfg.trace = p.reverse ++ begun cfg.trace :=
    ⟨[], List.nil_prefix, rfl⟩
  have hbody : ∀ c s (x : Handling), (board (fun _ => true) depth).ready .button c s = true →
      (pressing (Hand.ofConfig cfg) keys (begun cfg.trace) depth).Rest x →
      (pressing (Hand.ofConfig cfg) keys (begun cfg.trace) depth).Safe
        ((pressing (Hand.ofConfig cfg) keys (begun cfg.trace) depth).first c x) →
      (pressing (Hand.ofConfig cfg) keys (begun cfg.trace) depth).Run (body depth c)
        ((pressing (Hand.ofConfig cfg) keys (begun cfg.trace) depth).first c x)
        fun _ y => (pressing (Hand.ofConfig cfg) keys (begun cfg.trace) depth).Rest y := by
    intro c s x hready hrest hsafe
    have hthread : Thread.button = c.thread ∧ c.enabled s = true := by simpa [board] using hready
    cases c with
    | key k =>
      obtain ⟨p, hp, hpb, hhand⟩ := hrest
      obtain ⟨q, hq, hqb⟩ := hsafe.2
      have hqb' : k :: x.begun = q.reverse ++ begun cfg.trace := hqb
      have hpq : (p ++ [k]).reverse ++ begun cfg.trace = q.reverse ++ begun cfg.trace := by
        rw [← hqb', hpb]
        simp
      obtain rfl := begun_cancel hpq
      have hafter : Hand.callback k x.toHand = (Hand.ofConfig cfg).after (p ++ [k]) := by
        rw [hhand, Hand.after_append]
        rfl
      refine (press_callback k hsafe ?_).mono fun _ z hz => ?_
      · show (Hand.callback k x.toHand).released ≤ ((Hand.ofConfig cfg).after keys).released
        rw [hafter]
        exact Hand.released_prefix hq _
      · subst hz
        exact ⟨p ++ [k], hq, hqb, hafter⟩
    | _ => exact absurd hthread.1 (by simp [Call.thread])
  obtain ⟨y, hsafe, hsees, hrest⟩ := Owner.run_sees_from
    (N := pressing (Hand.ofConfig cfg) keys (begun cfg.trace) depth) (y := ⟨Hand.ofConfig cfg, begun cfg.trace⟩)
    hbody hidle hleft ⟨[], List.nil_prefix, rfl, rfl⟩ ⟨Hand.released_after _ keys, hbegun⟩ ⟨rfl, rfl, rfl, rfl, rfl⟩ ha
  exact ⟨y, hsafe.1, hsees, hrest⟩

theorem begun_past {past : Trace} (h : ∀ e ∈ past, ∃ o, e = .did .button o {}) (tr : Trace) :
    begun (past ++ tr) = begun tr := by
  induction past with
  | nil => rfl
  | cons e rest ih =>
    obtain ⟨o, rfl⟩ := h e List.mem_cons_self
    exact ih fun e he => h e (List.mem_cons_of_mem _ he)

theorem admits_own (i : Input) (base : List Firmware.Key) (n : Nat) (cfg : Conf) :
    (board (fun _ => true) depth).Admits (PressRule keys base) cfg (List.replicate n (.step .button i)) := by
  induction n generalizing cfg with
  | zero => trivial
  | succ n ih => exact ⟨fun h => absurd rfl h, ih _⟩

/-- The press can be gone through. -/
theorem press_complete (depth : Nat) (hidle : cfg.task .button = none) {p : List Firmware.Key} (hp : p <+: keys) :
    ∃ as, (board (fun _ => true) depth).Admits (PressRule keys (begun cfg.trace)) cfg as ∧
      ((board (fun _ => true) depth).run cfg as).task .button = none ∧
      begun ((board (fun _ => true) depth).run cfg as).trace = p.reverse ++ begun cfg.trace := by
  induction p using List.reverseRecOn with
  | nil => exact ⟨[], trivial, hidle, rfl⟩
  | append_singleton p k ih =>
    obtain ⟨as, hadmits, hnone, hbegun⟩ := ih ((List.prefix_append p [k]).trans hp)
    have hreached : begun (.began .button (.key k) :: ((board (fun _ => true) depth).run cfg as).trace) =
        (p ++ [k]).reverse ++ begun cfg.trace := by
      rw [begun, hbegun]
      simp
    have hnext := System.next_start (M := board (fun _ => true) depth) (t := .button) (c := .key k) hnone rfl
    obtain ⟨n, past, hrun, hpast⟩ := System.run_alone (M := board (fun _ => true) depth) .button (.key k) {}
      ((board (fun _ => true) depth).body (.key k)) (enter (.key k) ((board (fun _ => true) depth).run cfg as).state)
      ((board (fun _ => true) depth).run cfg as).task
      (.began .button (.key k) :: ((board (fun _ => true) depth).run cfg as).trace)
    generalize (board (fun _ => true) depth).alone .button {} _ _ = s' at hrun
    have hend : (board (fun _ => true) depth).run cfg (as ++ .start .button (.key k) :: List.replicate n (.step .button {})) =
        ⟨s', Function.update ((board (fun _ => true) depth).run cfg as).task .button none,
          past ++ .began .button (.key k) :: ((board (fun _ => true) depth).run cfg as).trace⟩ := by
      rw [System.run_append, System.run, hnext]
      exact hrun
    have hstart : PressRule keys (begun cfg.trace) ((board (fun _ => true) depth).run cfg as) (.start .button (.key k)) :=
      ⟨p ++ [k], hp, hreached⟩
    refine ⟨as ++ .start .button (.key k) :: List.replicate n (.step .button {}),
      System.admits_append.mpr ⟨hadmits, hstart, admits_own {} _ n _⟩, ?_, ?_⟩
    · rw [hend]
      simp
    · rw [hend]
      exact (begun_past hpast _).trans hreached

theorem tokens_le (depth : Nat) (cfg : Conf) (as : List Act) :
    tokens cfg.trace ≤ tokens ((board (fun _ => true) depth).run cfg as).trace := by
  have hcons : ∀ (e : Concurrent.Event Op Thread Call Input) (tr : Trace), tokens tr ≤ tokens (e :: tr) := by
    intro e tr
    cases e with
    | began t c => exact Nat.le_refl _
    | did t o i =>
      by_cases h : t ≠ .button ∨ ∀ k, o ≠ .semRelease k
      · exact Nat.le_of_eq (Handling.tokens_did h).symm
      · obtain ⟨ht, hk⟩ := not_or.mp h
        obtain ⟨k, hk⟩ := not_forall.mp hk
        rw [not_not.mp ht, not_not.mp hk]
        exact Nat.le_succ _
  refine System.run_invariant (fun c => tokens cfg.trace ≤ tokens c.trace) (fun c a h _ => ?_) (Nat.le_refl _)
    (System.admits_true cfg as)
  rcases System.next_cases (M := board (fun _ => true) depth) c a with hsame | ⟨t, d, rfl, ht, hr⟩ | ⟨t, i, d, o, k, rfl, ht⟩
  · rwa [hsame]
  · rw [System.next_start ht hr]
    exact Nat.le_trans h (hcons _ _)
  · rw [System.next_step ht]
    exact Nat.le_trans h (hcons _ _)

/-- A press does nothing if and only if its callbacks come to nothing. -/
theorem doesNothing_iff_after (hidle : cfg.task .button = none)
    (hleft : ∀ t c p, cfg.task t = some (c, p) → p.All fun o => may t o = true) :
    DoesNothing depth cfg keys ↔ ((Hand.ofConfig cfg).after keys).released = tokens cfg.trace := by
  constructor
  · intro h
    obtain ⟨as, hadmits, hnone, hbegun⟩ := press_complete depth hidle (List.prefix_refl keys)
    obtain ⟨y, -, hsees, hrest⟩ := press_seen hidle hleft hadmits
    obtain ⟨p, -, hp, hhand⟩ := hrest hnone
    obtain rfl : keys = p := begun_cancel (hbegun.symm.trans (hsees.begun.trans hp))
    rw [← h as hadmits, hsees.released, hhand]
  · intro h as hadmits
    obtain ⟨y, hle, hsees, -⟩ := press_seen hidle hleft hadmits
    have hmono := tokens_le depth cfg as
    rw [h, ← hsees.released] at hle
    exact Nat.le_antisymm hle hmono

end

/-! ### The press that wakes -/

theorem Hand.click_waking {x : Hand} (h : x.lcd = 2 ∨ x.lcd = 3) : x.click = {x with lcd := 1} := by
  rcases h with h | h <;> simp [click, opened, h]

/-- Held, K1 clicks again with the display awake. -/
theorem Hand.click_twice {x : Hand} (h : x.lcd = 2 ∨ x.lcd = 3) : x.click.click.released = x.released + 1 := by
  rw [click_waking h]
  simp [click, opened]

theorem Hand.clicks_iff {x : Hand} (h : x.lcd = 2 ∨ x.lcd = 3) (n : Nat) :
    (x.after (List.replicate n .k1)).released = x.released ↔ n ≤ 1 := by
  match n with
  | 0 => simp [after]
  | 1 => simp [after, callback, click_waking h]
  | n + 2 =>
    have hrest := released_after x.click.click (List.replicate n .k1)
    rw [click_twice h] at hrest
    have hsplit : x.after (List.replicate (n + 2) .k1) = x.click.click.after (List.replicate n .k1) := rfl
    rw [hsplit]
    omega

/-- Held, K2 counts its repeats up to ten and then releases, whatever the display does. -/
theorem Hand.holds_iff (x : Hand) (n : Nat) :
    (x.after (List.replicate n .k2Long)).released = x.released ↔
      x.long = 1 ∨ ∀ j < n, (x.counter + (j + 1)) % 2 ^ 8 ≤ 10 := by
  induction n generalizing x with
  | zero => simp [after]
  | succ n ih =>
    have hstep : x.after (List.replicate (n + 1) .k2Long) = x.hold.after (List.replicate n .k2Long) := rfl
    rw [hstep]
    by_cases hlong : x.long = 1
    · have hhold : x.hold = x.opened := if_pos hlong
      have hsame := (ih x.opened).mpr (.inl hlong)
      rw [hhold]
      exact ⟨fun _ => .inl hlong, fun _ => hsame⟩
    by_cases hten : (x.counter + 1) % 2 ^ 8 > 10
    · have hhold : x.hold.released = x.released + 1 := by
        rw [hold, if_neg hlong, if_pos hten]
      have hrest := released_after x.hold (List.replicate n .k2Long)
      constructor
      · intro h
        omega
      · rintro (h | h)
        · exact absurd h hlong
        · exact absurd (h 0 (Nat.succ_pos n)) (Nat.not_le.mpr hten)
    · have hhold : x.hold = {x.opened with counter := (x.counter + 1) % 2 ^ 8} := by
        rw [hold, if_neg hlong, if_neg hten]
      have hrest := ih {x.opened with counter := (x.counter + 1) % 2 ^ 8}
      rw [hhold]
      refine hrest.trans (or_congr Iff.rfl ⟨fun h j hj => ?_, fun h j hj => ?_⟩)
      · cases j with
        | zero => exact Nat.not_lt.mp hten
        | succ j =>
          have hj' := h j (Nat.lt_of_succ_lt_succ hj)
          simp only [] at hj'
          omega
      · have hj' := h (j + 1) (Nat.succ_lt_succ hj)
        show ((x.counter + 1) % 2 ^ 8 + (j + 1)) % 2 ^ 8 ≤ 10
        omega

/-- A click; K1 held for no more than one repeat; K2 held after a long press that was not let
go, or for no more repeats than are left to count. -/
def Harmless (k : Key) (p : Press) (s : Device) : Prop :=
  match k, p with
  | .key1, .long n => n ≤ 1
  | .key2, .long n => s.vars .k2LongFlag = 1 ∨ ∀ j < n, (s.vars .k2LongCounter + (j + 1)) % 2 ^ 8 ≤ 10
  | _, _ => True

theorem callbacks_long (k : Key) (n : Nat) : (Press.long n).callbacks k = match k with
    | .key0 => []
    | .key1 => List.replicate n .k1
    | .key2 => List.replicate n .k2Long ++ [.k2LongFree] := by
  induction n with
  | zero => cases k <;> rfl
  | succ n ih =>
    cases k with
    | key0 => exact ih
    | key1 => exact congrArg (.k1 :: ·) ih
    | key2 => exact congrArg (.k2Long :: ·) ih

theorem after_iff_harmless {k : Key} {p : Press} {cfg : Conf}
    (hlcd : cfg.state.vars .lcdFlag = 2 ∨ cfg.state.vars .lcdFlag = 3) :
    ((Hand.ofConfig cfg).after (p.callbacks k)).released = tokens cfg.trace ↔ Harmless k p cfg.state := by
  have hwaking : (Hand.ofConfig cfg).lcd = 2 ∨ (Hand.ofConfig cfg).lcd = 3 := hlcd
  cases p with
  | click =>
    have hclick : ((Hand.ofConfig cfg).click).released = tokens cfg.trace := by
      rw [Hand.click_waking hwaking]
      rfl
    cases k <;> exact ⟨fun _ => trivial, fun _ => hclick⟩
  | long n =>
    rw [callbacks_long]
    cases k with
    | key0 => exact ⟨fun _ => trivial, fun _ => rfl⟩
    | key1 => exact Hand.clicks_iff hwaking n
    | key2 =>
      rw [Hand.after_append]
      exact Hand.holds_iff (Hand.ofConfig cfg) n

/-- In a reachable state with the display dark or without supply, a press does nothing if and
only if it is harmless. -/
theorem waking_does_nothing_iff (depth : Nat) (flash : Nat → Nat) (as : List Act) (k : Key) (p : Press)
    (hidle : ((board (fun _ => true) depth).run (start flash) as).task .button = none)
    (hlcd : ((board (fun _ => true) depth).run (start flash) as).state.vars .lcdFlag = 2 ∨
      ((board (fun _ => true) depth).run (start flash) as).state.vars .lcdFlag = 3) :
    DoesNothing depth ((board (fun _ => true) depth).run (start flash) as) (p.callbacks k) ↔
      Harmless k p ((board (fun _ => true) depth).run (start flash) as).state :=
  (doesNothing_iff_after hidle fun _ _ _ h => run_may _ depth flash as h).trans (after_iff_harmless hlcd)

/-- The light has gone out. -/
def dark : Conf := (board (fun _ => true) 0).run (start fun _ => 0) (alone (.expire .screenBacklight) {} 3)

theorem waking_does_nothing_click : DoesNothing 0 dark (Press.click.callbacks .key1) :=
  (waking_does_nothing_iff 0 (fun _ => 0) (alone (.expire .screenBacklight) {} 3) .key1 .click (by decide +kernel)
    (by decide +kernel)).mpr trivial

/-- K1 held for two repeats, and K2 for eleven. -/
theorem waking_acts : ¬ DoesNothing 0 dark ((Press.long 2).callbacks .key1) ∧
    ¬ DoesNothing 0 dark ((Press.long 11).callbacks .key2) := by
  have hidle : dark.task .button = none := Option.isNone_iff_eq_none.mp (by decide +kernel)
  have hiff : ∀ keys, DoesNothing 0 dark keys ↔ ((Hand.ofConfig dark).after keys).released = tokens dark.trace :=
    fun keys => doesNothing_iff_after hidle fun _ _ _ h => run_may _ 0 _ _ h
  rw [hiff, hiff]
  decide +kernel

end Backwash.Keypad
