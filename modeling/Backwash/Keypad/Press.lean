import Backwash.Keypad.Scan

/-! What a press fires.

A key that is pressed alone counts its scans, first up to a long press and then from one report
of it to the next. The second count is not set back when the key is let go, so it is part of
what a press leaves to the next one. -/
namespace Backwash.Keypad
open Concurrent

/-! ### Counting -/

/-- The reports of a long press in `n` scans, with `c` scans left over from the last press. -/
def longs (c n : Nat) : Nat := (c + (n - (longTime - 1))) / longCycle

/-- What is left over. -/
def leftOver (c n : Nat) : Nat := (c + (n - (longTime - 1))) % longCycle

/-- A key that has been held for `n` scans. -/
structure Down (c n : Nat) (b : Button) : Prop where
  state : b.state = .dowm
  lastLevel : b.lastLevel = triggerLevel
  debounce : b.debounce = 0
  lastState : b.lastState ≠ .double
  short : n < longTime → b.long = n
  long : longTime ≤ n → longTime ≤ b.long ∧ b.long < 0xFF
  cycle : b.cycle = leftOver c n
  click : 0 < n → longs c n = 0 → b.triggerEvent = .dowm

variable {c n : Nat} {b : Button} {k : Key} {x : Scanner}

/-- One more scan, with a report or without. -/
theorem Down.held (h : Down c n b) (hc : c < longCycle) :
    Down c (n + 1) (Keypad.held b).1 ∧ longs c (n + 1) = longs c n + (if (Keypad.held b).2 then 1 else 0) := by
  obtain ⟨hstate, hlevel, hdeb, hlast, hshort, hlong, hcycle, -⟩ := h
  simp only [longTime, longCycle, leftOver] at hc hshort hlong hcycle
  have hcount : (b.long + 1) % 2 ^ 8 = b.long + 1 := by omega
  have hturn : (b.cycle + 1) % 2 ^ 8 = b.cycle + 1 := by omega
  unfold Keypad.held
  rw [if_pos hlevel, hcount, hturn]
  dsimp only
  by_cases hl : b.long + 1 ≥ longTime
  · rw [if_pos hl]
    simp only [longTime] at hl
    have hn : 99 ≤ n := by omega
    by_cases hm : b.cycle + 1 ≥ longCycle
    · rw [if_pos hm]
      simp only [longCycle] at hm
      have hlongs : longs c (n + 1) = longs c n + 1 := by simp only [longs, longTime, longCycle]; omega
      refine ⟨⟨hstate, hlevel, hdeb, hlast, ?_, ?_, ?_, ?_⟩, hlongs⟩
      · simp only [longTime]; omega
      · simp only [longTime]; intro _; split <;> omega
      · simp only [leftOver, longTime, longCycle]; omega
      · omega
    · rw [if_neg hm]
      simp only [longCycle] at hm
      have hlongs : longs c (n + 1) = longs c n := by simp only [longs, longTime, longCycle]; omega
      refine ⟨⟨hstate, hlevel, hdeb, hlast, ?_, ?_, ?_, fun _ _ => rfl⟩, hlongs⟩
      · simp only [longTime]; omega
      · simp only [longTime]; intro _; split <;> omega
      · simp only [leftOver, longTime, longCycle]; omega
  · rw [if_neg hl]
    simp only [longTime] at hl
    have hn : n < 99 := by omega
    have hlongs : longs c (n + 1) = longs c n := by simp only [longs, longTime, longCycle]; omega
    refine ⟨⟨hstate, hlevel, hdeb, hlast, ?_, ?_, ?_, fun _ _ => rfl⟩, hlongs⟩
    · simp only [longTime]; omega
    · simp only [longTime]; omega
    · simp only [leftOver, longTime, longCycle]; omega

theorem longs_zero (hc : c < longCycle) : longs c 0 = 0 := by
  simp only [longs, longTime, longCycle] at hc ⊢
  omega

/-! ### One key at a time -/

/-- The levels while only key `k` may be pressed. -/
def only (k : Key) (level : Bool) : Key → Bool := fun j => if j = k then level else true

/-- The other keys are up and wait for nothing. -/
def Aside (k : Key) (x : Scanner) : Prop := ∀ j, j ≠ k → (x.part j).state = .none ∧ (x.part j).lastLevel = true

/-- A key that is up and waits for nothing takes no notice of a turn. -/
theorem turn_idle {j : Key} (hstate : (x.part j).state = .none) (hlevel : (x.part j).lastLevel = true) :
    buttons.turn j true x = x := by
  have hstep : buttons.step j true x.mark (x.part j) = (x.part j, x.mark, none) := by
    show buttonCycleProcess true x.mark (x.part j) = _
    unfold buttonCycleProcess debounced
    rw [if_pos hlevel.symm]
    dsimp only
    rw [hstate]
  unfold Sharing.turn
  rw [hstep]
  simp only [Function.update_eq_self, Option.toList_none, List.nil_append]

/-- Then a scan is a turn of the key. -/
theorem scan_only (h : Aside k x) (level : Bool) : buttons.run x (buttonProcess (only k level)) = buttons.turn k level x := by
  have hafter : ∀ j, j ≠ k → buttons.turn j true (buttons.turn k level x) = buttons.turn k level x := by
    intro j hj
    obtain ⟨hstate, hlevel⟩ := h j hj
    refine turn_idle ?_ ?_ <;> simpa [Sharing.turn, hj]
  have hbefore : ∀ j, j ≠ k → buttons.turn j true x = x := fun j hj => turn_idle (h j hj).1 (h j hj).2
  have hself : only k level k = level := if_pos rfl
  have hother : ∀ j, j ≠ k → only k level j = true := fun j hj => if_neg hj
  simp only [buttonProcess, headButton, List.map_cons, List.map_nil, Sharing.run]
  cases k with
  | key0 => rw [hself, hother .key1 (by decide), hother .key2 (by decide), hbefore .key2 (by decide), hbefore .key1 (by decide)]
  | key1 => rw [hself, hother .key0 (by decide), hother .key2 (by decide), hbefore .key2 (by decide), hafter .key0 (by decide)]
  | key2 => rw [hself, hother .key0 (by decide), hother .key1 (by decide), hafter .key1 (by decide), hafter .key0 (by decide)]

/-- Nothing but the key has changed. -/
def Beside (k : Key) (x y : Scanner) : Prop := ∀ j, j ≠ k → Sharing.Same j x y

theorem Beside.turn {y : Scanner} (h : Beside k x y) (level : Bool) : Beside k x (buttons.turn k level y) :=
  fun j hj => (h j hj).aside hj.symm level

theorem Beside.aside {y : Scanner} (h : Beside k x y) (hx : Aside k x) : Aside k y := by
  intro j hj
  rw [← (h j hj).part]
  exact hx j hj

/-- The scans of `n` times 10 ms with the key at one level. -/
def hold (k : Key) (level : Bool) (n : Nat) (x : Scanner) : Scanner :=
  buttons.run x ((List.replicate n (only k level)).flatMap buttonProcess)

theorem hold_succ (k : Key) (level : Bool) (n : Nat) (x : Scanner) :
    hold k level (n + 1) x = buttons.run (hold k level n x) (buttonProcess (only k level)) := by
  unfold hold
  rw [List.replicate_succ', List.flatMap_append, Sharing.run_append, List.flatMap_singleton]

/-! ### Down -/

/-- A key at rest, with `c` scans left over. -/
structure Resting (c : Nat) (k : Key) (x : Scanner) : Prop where
  mark : x.mark = false
  aside : Aside k x
  state : (x.part k).state = .none
  lastLevel : (x.part k).lastLevel = true
  debounce : (x.part k).debounce = 0
  lastState : (x.part k).lastState ≠ .double
  long : (x.part k).long = 0
  cycle : (x.part k).cycle = c
  cycle_lt : c < longCycle

/-- The key has been held for `n` scans since `x`. -/
structure Held (c n : Nat) (k : Key) (x y : Scanner) : Prop where
  beside : Beside k x y
  down : Down c n (y.part k)
  mark : y.mark = decide (0 < longs c n)
  past : y.past k = List.replicate (longs c n) .long ++ x.past k

/-- A turn of a key that is down. -/
theorem Held.turn {y : Scanner} (h : Held c n k x y) (hc : c < longCycle) : Held c (n + 1) k x (buttons.turn k triggerLevel y) := by
  obtain ⟨hdown, hlongs⟩ := h.down.held hc
  have hstep : buttons.step k triggerLevel y.mark (y.part k) = ((held (y.part k)).1, y.mark || (held (y.part k)).2,
      if (held (y.part k)).2 then some .long else none) := by
    show buttonCycleProcess triggerLevel y.mark (y.part k) = _
    unfold buttonCycleProcess debounced
    rw [if_pos h.down.lastLevel.symm]
    dsimp only
    rw [h.down.state]
  obtain ⟨hpart, hmark, hpast⟩ := Sharing.turn_self hstep
  refine ⟨h.beside.turn _, ?_, ?_, ?_⟩
  · rw [hpart]
    exact hdown
  · rw [hmark, hlongs, h.mark]
    cases (held (y.part k)).2 <;> simp
  · rw [hpast, hlongs, h.past]
    cases (held (y.part k)).2 <;> simp [List.replicate_succ]

/-- The first scan of a press. -/
theorem Resting.press (h : Resting c k x) : Held c 1 k x (buttons.turn k triggerLevel x) := by
  -- the key goes down before it counts
  obtain ⟨b, hb⟩ : ∃ b, changeLevel triggerLevel (x.part k) = b := ⟨_, rfl⟩
  have hdown : Down c 0 b := by
    have hcycle := h.cycle
    have hlt := h.cycle_lt
    simp only [longCycle] at hlt
    rw [← hb]
    refine ⟨by simp only [changeLevel, h.state], rfl, rfl, h.lastState, fun _ => h.long, ?_, ?_, fun h0 => absurd h0 (by decide)⟩
    · simp only [longTime]
      omega
    · show (x.part k).cycle = _
      simp only [leftOver, longTime, longCycle]
      omega
  obtain ⟨y, hy⟩ : ∃ y : Scanner, {x with part := Function.update x.part k b} = y := ⟨_, rfl⟩
  have hheld : Held c 0 k x y := by
    rw [← hy]
    refine ⟨fun _ hj => ⟨(Function.update_of_ne hj ..).symm, rfl⟩, ?_, ?_, ?_⟩
    · show Down c 0 (Function.update x.part k b k)
      rw [Function.update_self]
      exact hdown
    · rw [longs_zero h.cycle_lt]
      exact h.mark
    · rw [longs_zero h.cycle_lt]
      rfl
  have hstep : buttons.step k triggerLevel x.mark (x.part k) = buttons.step k triggerLevel y.mark (y.part k) := by
    have hpart : y.part k = b := by
      rw [← hy]
      exact Function.update_self ..
    have hmark : y.mark = x.mark := by rw [← hy]
    have hdeb : debounced triggerLevel (x.part k) = b := by
      unfold debounced
      rw [if_neg (by rw [h.lastLevel]; decide), h.debounce, if_pos (by decide), hb]
    have hdeb' : debounced triggerLevel b = b := by
      unfold debounced
      rw [if_pos hdown.lastLevel.symm]
    show buttonCycleProcess triggerLevel x.mark (x.part k) = buttonCycleProcess triggerLevel y.mark (y.part k)
    unfold buttonCycleProcess
    rw [hpart, hmark, hdeb, hdeb']
  have hturn : buttons.turn k triggerLevel x = buttons.turn k triggerLevel y := by
    unfold Sharing.turn
    rw [hstep, ← hy]
    simp only [Function.update_idem]
  rw [hturn]
  exact hheld.turn h.cycle_lt

theorem Resting.held (h : Resting c k x) (n : Nat) : Held c (n + 1) k x (hold k triggerLevel (n + 1) x) := by
  induction n with
  | zero =>
    rw [hold_succ]
    show Held c 1 k x (buttons.run x _)
    rw [scan_only h.aside]
    exact h.press
  | succ n ih =>
    rw [hold_succ, scan_only (ih.beside.aside h.aside)]
    exact ih.turn h.cycle_lt

/-! ### Up again -/

/-- A key that has been up for `m` scans, and may be waiting for a second click. -/
structure Up (c m : Nat) (b : Button) : Prop where
  lastLevel : b.lastLevel = true
  debounce : b.debounce = 0
  long : b.long = 0
  cycle : b.cycle = c
  waits : (b.state = .none ∧ b.lastState ≠ .double) ∨ (m < doubleTime ∧ b.state = .double ∧ b.timerCount = m)

/-- What a press of `n` scans has fired, latest first. -/
def fires (c n : Nat) : List Event := if longs c n = 0 then [.dowm] else .longFree :: List.replicate (longs c n) .long

/-- The key has been up for `m` scans since it was let go. -/
structure LetGo (c n m : Nat) (k : Key) (x y : Scanner) : Prop where
  beside : Beside k x y
  up : Up (leftOver c n) m (y.part k)
  mark : y.mark = false
  past : y.past k = fires c n ++ x.past k

/-- The key is let go. -/
theorem Held.letGo {y : Scanner} (h : Held c n k x y) (hn : 0 < n) : LetGo c n 0 k x (buttons.turn k true y) := by
  obtain ⟨hbeside, hdown, hmark, hpast⟩ := h
  have hstate : (changeLevel true (y.part k)).state = .up := by simp only [changeLevel, hdown.state]
  have hstep : buttons.step k true y.mark (y.part k) = ((released y.mark (changeLevel true (y.part k))).1, false,
      (released y.mark (changeLevel true (y.part k))).2) := by
    show buttonCycleProcess true y.mark (y.part k) = _
    unfold buttonCycleProcess debounced
    rw [if_neg (by rw [hdown.lastLevel]; decide), hdown.debounce, if_pos (by decide)]
    dsimp only
    rw [hstate]
  have hrel : Up (leftOver c n) 0 (released y.mark (changeLevel true (y.part k))).1 ∧
      (released y.mark (changeLevel true (y.part k))).2.toList ++ y.past k = fires c n ++ x.past k := by
    unfold released fires
    rw [hpast, hmark]
    by_cases hz : longs c n = 0
    · rw [if_neg (by rw [hz]; decide), if_pos hz, hz]
      have hclick : (changeLevel true (y.part k)).triggerEvent = .dowm := hdown.click hn hz
      rw [if_pos hclick, if_neg fun hd => hdown.lastState hd.2]
      exact ⟨⟨rfl, rfl, rfl, hdown.cycle, .inr ⟨by decide, rfl, rfl⟩⟩, rfl⟩
    · rw [if_pos (decide_eq_true (Nat.pos_of_ne_zero hz)), if_neg hz]
      exact ⟨⟨rfl, rfl, rfl, hdown.cycle, .inl ⟨rfl, (by decide : Event.long ≠ .double)⟩⟩, rfl⟩
  obtain ⟨hpart', hmark', hpast'⟩ := Sharing.turn_self hstep
  refine ⟨hbeside.turn _, ?_, hmark', hpast'.trans hrel.2⟩
  rw [hpart']
  exact hrel.1

/-- A turn of a key that is up. -/
theorem LetGo.turn {m : Nat} {y : Scanner} (h : LetGo c n m k x y) : LetGo c n (m + 1) k x (buttons.turn k true y) := by
  obtain ⟨hbeside, hup, hmark, hpast⟩ := h
  have hstep : ∃ b, buttons.step k true y.mark (y.part k) = (b, y.mark, none) ∧ Up (leftOver c n) (m + 1) b := by
    show ∃ b, buttonCycleProcess true y.mark (y.part k) = (b, y.mark, none) ∧ _
    unfold buttonCycleProcess debounced
    rw [if_pos hup.lastLevel.symm]
    dsimp only
    rcases hup.waits with ⟨hstate, hlast⟩ | ⟨hm, hstate, hcount⟩
    · rw [hstate]
      exact ⟨_, rfl, hup.lastLevel, hup.debounce, hup.long, hup.cycle, .inl ⟨hstate, hlast⟩⟩
    · rw [hstate]
      refine ⟨_, rfl, ?_⟩
      simp only [doubleTime] at hm
      have hnext : ((y.part k).timerCount + 1) % 2 ^ 8 = m + 1 := by omega
      unfold awaited
      rw [hnext]
      dsimp only
      by_cases hend : m + 1 ≥ doubleTime
      · rw [if_pos hend]
        exact ⟨hup.lastLevel, hup.debounce, hup.long, hup.cycle, .inl ⟨rfl, (by decide : Event.none ≠ .double)⟩⟩
      · rw [if_neg hend]
        exact ⟨hup.lastLevel, hup.debounce, hup.long, hup.cycle, .inr ⟨Nat.lt_of_not_le hend, hstate, rfl⟩⟩
  obtain ⟨b, hstep, hup'⟩ := hstep
  obtain ⟨hpart', hmark', hpast'⟩ := Sharing.turn_self hstep
  refine ⟨hbeside.turn _, ?_, hmark'.trans hmark, hpast'.trans hpast⟩
  rw [hpart']
  exact hup'

/-- A press of `n` scans and `m + 1` scans without one. -/
theorem Resting.letGo (h : Resting c k x) (hn : 0 < n) (m : Nat) :
    LetGo c n m k x (hold k true (m + 1) (hold k triggerLevel n x)) := by
  obtain ⟨n, rfl⟩ : ∃ i, n = i + 1 := ⟨n - 1, by omega⟩
  have hheld := h.held n
  induction m with
  | zero =>
    rw [hold_succ]
    show LetGo c (n + 1) 0 k x (buttons.run (hold k triggerLevel (n + 1) x) (buttonProcess (only k true)))
    rw [scan_only (hheld.beside.aside h.aside)]
    exact hheld.letGo hn
  | succ m ih =>
    rw [hold_succ, scan_only (ih.beside.aside h.aside)]
    exact ih.turn

/-- After the time of a double click the key is at rest again. -/
theorem LetGo.resting {m : Nat} {y : Scanner} (h : LetGo c n m k x y) (hx : Resting c k x) (hm : doubleTime ≤ m) :
    Resting (leftOver c n) k y := by
  obtain ⟨hstate, hlast⟩ := h.up.waits.resolve_right fun hw => Nat.not_lt.mpr hm hw.1
  exact ⟨h.mark, h.beside.aside hx.aside, hstate, h.up.lastLevel, h.up.debounce, hlast, h.up.long, h.up.cycle,
    Nat.mod_lt _ (by decide)⟩

/-! ### One press after the other -/

/-- The scans of presses of key `k`: how long each of them lasts, and how long the key is up after it. -/
def pressed (k : Key) (presses : List (Nat × Nat)) : List (Key → Bool) :=
  presses.flatMap fun p => List.replicate p.1 (only k triggerLevel) ++ List.replicate p.2 (only k true)

/-- What the presses have fired, latest first. -/
def fired : Nat → List (Nat × Nat) → List Event
  | _, [] => []
  | c, p :: presses => fired (leftOver c p.1) presses ++ fires c p.1

theorem Resting.presses (h : Resting c k x) {presses : List (Nat × Nat)} (hp : ∀ p ∈ presses, 0 < p.1 ∧ doubleTime < p.2) :
    (buttons.run x ((pressed k presses).flatMap buttonProcess)).past k = fired c presses ++ x.past k ∧
      ∀ j, j ≠ k → (buttons.run x ((pressed k presses).flatMap buttonProcess)).past j = x.past j := by
  induction presses generalizing c x with
  | nil => exact ⟨rfl, fun _ _ => rfl⟩
  | cons p presses ih =>
    obtain ⟨⟨hn, hm⟩, hrest⟩ := List.forall_mem_cons.mp hp
    obtain ⟨m, hpm⟩ : ∃ i, p.2 = i + 1 := ⟨p.2 - 1, by omega⟩
    rw [hpm] at hm
    have hgo := h.letGo hn m
    rw [← hpm] at hgo
    obtain ⟨hpast, hother⟩ := ih (hgo.resting h (Nat.le_of_lt_succ hm)) hrest
    have hrun : buttons.run x ((pressed k (p :: presses)).flatMap buttonProcess) =
        buttons.run (hold k true p.2 (hold k triggerLevel p.1 x)) ((pressed k presses).flatMap buttonProcess) := by
      unfold pressed hold
      rw [List.flatMap_cons, List.flatMap_append, List.flatMap_append, Sharing.run_append, Sharing.run_append]
    rw [hrun]
    refine ⟨?_, fun j hj => (hother j hj).trans (hgo.beside j hj).past.symm⟩
    rw [hpast, hgo.past, fired, List.append_assoc]

theorem resting_created (k : Key) : Resting 0 k (created fun _ => true) :=
  ⟨rfl, fun _ _ => ⟨rfl, rfl⟩, rfl, rfl, rfl, (by decide : Event.none ≠ .double), rfl, rfl, by decide⟩

/-- A key pressed alone, each time long enough after the last: a press fires the event of one click,
or of as many long presses as its scans and those left over from the presses before make up, and
that of their end. The other keys fire no event. -/
theorem presses_fire (k : Key) (presses : List (Nat × Nat)) (hp : ∀ p ∈ presses, 0 < p.1 ∧ doubleTime < p.2) :
    (buttonTaskEntry (fun _ => true) (pressed k presses)).past k = fired 0 presses ∧
      ∀ j, j ≠ k → (buttonTaskEntry (fun _ => true) (pressed k presses)).past j = [] := by
  obtain ⟨hpast, hother⟩ := (resting_created k).presses hp
  exact ⟨hpast.trans (List.append_nil _), hother⟩

/-- A press that is a little too short for a long one makes the next one report it early. -/
theorem presses_fire_early :
    (buttonTaskEntry (fun _ => true) (pressed .key2 [(123, 16), (100, 16)])).past .key2 = fired 0 [(123, 16), (100, 16)] ∧
      ∀ j, j ≠ Key.key2 → (buttonTaskEntry (fun _ => true) (pressed .key2 [(123, 16), (100, 16)])).past j = [] :=
  presses_fire .key2 [(123, 16), (100, 16)] (by decide)

example : fired 0 [(123, 16), (100, 16)] = [.longFree, .long, .dowm] ∧ fired 0 [(100, 16)] = [.dowm] := by decide

end Backwash.Keypad
