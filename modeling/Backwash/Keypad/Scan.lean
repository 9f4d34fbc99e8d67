import Backwash.Concurrent.Shared
import Backwash.Firmware.Board

/-! The keys: button.c and the button thread of DeviceInit.c.

`Button_Process` goes through the three keys every 10 ms. A key has a state machine of
its own, but the mark of a long press, `LongFlag`, is one for all of them: whichever
key is held long sets it, and whichever key is up next takes it. A key that finds the
mark of another reports the end of a long press instead of a click; one that has lost
its own reports a click, or stays up. -/
namespace Backwash.Keypad
open Concurrent

/-! ### button.h, rtconfig.h -/

/-- `Button_Event`, as far as this configuration uses it; it doubles as the state. -/
inductive Event where
  | dowm | up | double | long | longFree | none
  deriving DecidableEq, Repr

def debounceTime : Nat := 1
def longCycle : Nat := 25
def doubleTime : Nat := 15
def longTime : Nat := 100

/-- `Button_t`. The levels are those of the pin. -/
structure Button where
  state : Event := .none
  lastState : Event := .none
  lastLevel : Bool
  triggerEvent : Event := .none
  cycle : Nat := 0
  timerCount : Nat := 0
  debounce : Nat := 0
  long : Nat := 0
  deriving DecidableEq, Repr

/-- `Button_Trigger_Level` of all three keys. -/
def triggerLevel : Bool := false

/-- `Button_Create`, with the level it reads. -/
def buttonCreate (level : Bool) : Button where
  lastLevel := level

/-! ### Button_Cycle_Process -/

/-- The level has changed: pressed, or released. -/
def changeLevel (level : Bool) (b : Button) : Button :=
  {b with lastLevel := level
          debounce := 0
          state := match b.state with
            | .none | .double => .dowm
            | .dowm => .up
            | e => e}

/-- The level is taken over after `debounceTime` scans. -/
def debounced (level : Bool) (b : Button) : Button :=
  if level = b.lastLevel then b
  else if (b.debounce + 1) % 2 ^ 8 ≥ debounceTime then changeLevel level b
  else {b with debounce := (b.debounce + 1) % 2 ^ 8}

/-- `case BUTTON_DOWM`: a key that is held. Whether it triggers `BUTTON_LONG`. -/
def held (b : Button) : Button × Bool :=
  if b.lastLevel = triggerLevel then
    let n := (b.long + 1) % 2 ^ 8
    if n ≥ longTime then
      let m := (b.cycle + 1) % 2 ^ 8
      let next := if n = 0xFF then longTime else n
      if m ≥ longCycle then ({b with triggerEvent := .long, cycle := 0, long := next}, true)
      else ({b with triggerEvent := .dowm, cycle := m, long := next}, false)
    else ({b with triggerEvent := .dowm, long := n}, false)
  else (b, false)

/-- `case BUTTON_UP`: a key that is released, and what it triggers. -/
def released (longFlag : Bool) (b : Button) : Button × Option Event :=
  if longFlag then ({b with long := 0, state := .none, lastState := .long}, some .longFree)
  else if b.triggerEvent = .dowm then
    if b.timerCount ≤ doubleTime ∧ b.lastState = .double then
      ({b with triggerEvent := .double, state := .none, lastState := .none}, some .double)
    else ({b with timerCount := 0, long := 0, state := .double, lastState := .double}, some .dowm)
  else (b, none)

/-- `case BUTTON_DOUBLE`: waiting for a second click. -/
def awaited (b : Button) : Button :=
  let n := (b.timerCount + 1) % 2 ^ 8
  if n ≥ doubleTime then {b with timerCount := n, state := .none, lastState := .none}
  else {b with timerCount := n}

/-- `Button_Cycle_Process`: the button, `LongFlag`, and the event it triggers. -/
def buttonCycleProcess (level longFlag : Bool) (b : Button) : Button × Bool × Option Event :=
  let b := debounced level b
  match b.state with
  | .dowm => ((held b).1, longFlag || (held b).2, if (held b).2 then some .long else none)
  | .up => ((released longFlag b).1, false, (released longFlag b).2)
  | .double => (awaited b, longFlag, none)
  | _ => (b, longFlag, none)

/-! ### DeviceInit.c -/

inductive Key where
  | key0 | key1 | key2
  deriving DecidableEq, Repr

/-- The callback attached to an event of a key, as a call of the button thread. -/
def attached : Key → Event → Option Firmware.Key
  | .key0, .dowm => some .k0
  | .key1, .dowm => some .k1
  | .key1, .long => some .k1
  | .key2, .dowm => some .k2
  | .key2, .long => some .k2Long
  | .key2, .longFree => some .k2LongFree
  | _, _ => none

/-- The key takes the branch in which it reads `LongFlag`: it is up, or comes up. -/
def comesUp (level : Bool) (b : Button) : Prop := b.state = .up ∨ (b.state = .dowm ∧ level ≠ b.lastLevel)

instance (level : Bool) (b : Button) : Decidable (comesUp level b) := inferInstanceAs (Decidable (_ ∨ _))

theorem comesUp_of_up {level : Bool} {b : Button} (h : (debounced level b).state = .up) : comesUp level b := by
  unfold debounced at h
  split at h
  · exact .inl h
  next hlevel =>
    split at h
    · cases hs : b.state with
      | dowm => exact .inr ⟨hs, hlevel⟩
      | up => exact .inl hs
      | none | double | long | longFree => simp [changeLevel, hs] at h
    · exact .inl h

/-- Only a key that is up reads the mark. -/
theorem cycle_same {level : Bool} {b : Button} (h : ¬ comesUp level b) (m m' : Bool) :
    (buttonCycleProcess level m b).1 = (buttonCycleProcess level m' b).1 ∧
      (buttonCycleProcess level m b).2.2 = (buttonCycleProcess level m' b).2.2 := by
  unfold buttonCycleProcess
  cases hs : (debounced level b).state with
  | up => exact absurd (comesUp_of_up hs) h
  | _ => simp [hs]

/-- The keys, and `LongFlag` between them. -/
def buttons : Sharing Key Bool Bool Button Event where
  step := fun _ level longFlag b => buttonCycleProcess level longFlag b
  reads := fun _ level b => comesUp level b
  step_same := fun h => cycle_same h

abbrev Scanner := Sharing.State Key Bool Button Event

/-- `Head_Button`: every key is put in front of those created before. -/
def headButton : List Key := [.key2, .key1, .key0]

/-- The turns of one `Button_Process` with the given levels. -/
def buttonProcess (level : Key → Bool) : List (Key × Bool) := headButton.map fun k => (k, level k)

/-- The keys as `button_task_entry` creates them. -/
def created (level : Key → Bool) : Scanner where
  mark := false
  part := fun k => buttonCreate (level k)
  past := fun _ => []

/-- `button_task_entry`: the keys are created with the first levels, and scanned. -/
def buttonTaskEntry (level : Key → Bool) (scans : List (Key → Bool)) : Scanner :=
  buttons.run (created level) (scans.flatMap buttonProcess)

/-- The callbacks a key has fired, latest first. -/
def callbacks (k : Key) (x : Scanner) : List Event := (x.past k).filter fun e => (attached k e).isSome

/-! ### Keys that keep their marks -/

/-- The key has triggered a long press and not yet its end. -/
def ownMark : List Event → Bool
  | [] => false
  | .long :: _ => true
  | .longFree :: _ => false
  | _ :: past => ownMark past

/-- Whenever key `k` comes up, `LongFlag` is set if, and only if, the key itself has set it. -/
def OwnMarks (k : Key) (level : Key → Bool) (scans : List (Key → Bool)) : Prop :=
  buttons.Kept ownMark k (created level) (scans.flatMap buttonProcess)

instance (k : Key) (level : Key → Bool) (scans : List (Key → Bool)) : Decidable (OwnMarks k level scans) :=
  have : ∀ k i s, Decidable (buttons.reads k i s) := fun _ i s => inferInstanceAs (Decidable (comesUp i s))
  inferInstanceAs (Decidable (buttons.Kept _ _ _ _))

/-- Scans that show key `k` the same levels take the same turns, as far as it can see. -/
theorem sameTurns {k : Key} {scans scans' : List (Key → Bool)}
    (h : (scans.map fun level => level k) = scans'.map fun level => level k) :
    List.Forall₂ (Sharing.SameTurn k) (scans.flatMap buttonProcess) (scans'.flatMap buttonProcess) := by
  induction scans generalizing scans' with
  | nil =>
    obtain rfl : scans' = [] := by simpa using h.symm
    exact .nil
  | cons level rest ih =>
    cases scans' with
    | nil => simp at h
    | cons level' rest' =>
      obtain ⟨hlevel, hrest⟩ : level k = level' k ∧ _ := by simpa using h
      have hturn : ∀ j, Sharing.SameTurn k (j, level j) (j, level' j) := fun j =>
        ⟨rfl, fun (hj : j = k) => by subst hj; exact hlevel⟩
      exact .cons (hturn .key2) (.cons (hturn .key1) (.cons (hturn .key0) (ih hrest)))

/-- The callbacks of a key do not depend on the levels of the others, in runs in which
it finds its own marks. -/
theorem callbacks_independent (k : Key) {level level' : Key → Bool} {scans scans' : List (Key → Bool)}
    (hlevel : level k = level' k) (hscans : (scans.map fun l => l k) = scans'.map fun l => l k)
    (h : OwnMarks k level scans) (h' : OwnMarks k level' scans') :
    callbacks k (buttonTaskEntry level scans) = callbacks k (buttonTaskEntry level' scans') := by
  have hcreated : Sharing.Same k (created level) (created level') := ⟨congrArg buttonCreate hlevel, rfl⟩
  have hsame := Sharing.run_same (sameTurns hscans) hcreated h h'
  unfold callbacks
  exact congrArg _ hsame.past

/-- `Key1` clicked after 130 scans, with `Key2` held from the 1st to the 140th if `both`. -/
def clicked (both : Bool) : List (Key → Bool) :=
  (List.range 150).map fun n k => match k with
    | .key0 => true
    | .key1 => n != 130
    | .key2 => !(both && n < 140)

/-- The key held beside it takes the click away. -/
theorem callbacks_depend : ¬ ∀ (k : Key) (level level' : Key → Bool) (scans scans' : List (Key → Bool)),
    level k = level' k → ((scans.map fun l => l k) = scans'.map fun l => l k) →
    callbacks k (buttonTaskEntry level scans) = callbacks k (buttonTaskEntry level' scans') := by
  intro h
  have hlevels : ((clicked false).map fun l => l .key1) = (clicked true).map fun l => l .key1 := by decide
  have halone : callbacks .key1 (buttonTaskEntry (fun _ => true) (clicked false)) = [.dowm] := by decide +kernel
  have hboth : callbacks .key1 (buttonTaskEntry (fun _ => true) (clicked true)) = [] := by decide +kernel
  have hsame := h .key1 (fun _ => true) (fun _ => true) (clicked false) (clicked true) rfl hlevels
  rw [halone, hboth] at hsame
  cases hsame

/-- `Key1` clicked, before `Key2` is held or without it. -/
def clickedBefore (both : Bool) : List (Key → Bool) :=
  (List.range 150).map fun n k => match k with
    | .key0 => true
    | .key1 => n != 5
    | .key2 => !(both && 10 < n && n < 140)

theorem callbacks_independent_clickedBefore :
    callbacks .key1 (buttonTaskEntry (fun _ => true) (clickedBefore false)) =
      callbacks .key1 (buttonTaskEntry (fun _ => true) (clickedBefore true)) :=
  callbacks_independent .key1 rfl (by decide) (by decide +kernel) (by decide +kernel)

end Backwash.Keypad
