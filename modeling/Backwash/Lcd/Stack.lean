import Backwash.Lcd.Screen

/-! The window stack.

The menus form a tree with the main menu at its root: a menu window lies over the
window that opens it. The windows of a request or an alert may lie over anything.
A window function draws its window while its `FirstFlag` is clear, and otherwise
leaves with its flag clear, whichever of its exits it takes. What is proved of all
27 window functions here holds for every property that looks at the stack. -/
namespace Backwash.Lcd
open Concurrent Prog Firmware

/-! ### The tree -/

/-- The main menu, the settings menu and its entries. -/
def basement : Win → Bool
  | .w1 | .w14 | .w15 | .w16 | .w17 | .w18 | .w19 | .w20 | .w21 => true
  | _ => false

/-- Window `u` may lie directly over window `l`: a request or an alert over any, an entry
over its menu. The entries of the main menu can also come to lie over the settings menu
or an entry of it, when K2 is taken in the pass in which a long press opens it. -/
def covers (u l : Win) : Bool :=
  match u with
  | .w3 | .w25 | .w26 | .w27 => true
  | .w2 | .w4 | .w5 | .w6 | .w7 => basement l
  | .w14 => l == .w1
  | .w8 | .w12 | .w13 => l == .w7
  | .w9 | .w10 | .w11 => l == .w8
  | .w15 | .w16 | .w17 | .w18 | .w19 | .w20 | .w21 => l == .w14
  | .w23 => l == .w21
  | .w1 | .w22 | .w24 => false

/-- The entry of the main menu that opens a window. -/
def entry : Win → Option Nat
  | .w2 => some 0
  | .w4 => some 1
  | .w5 => some 2
  | .w6 => some 3
  | .w7 => some 4
  | _ => none

/-- A window function pushes what belongs over its window, or the main menu. -/
def opens (w v : Win) : Bool := v == .w1 || (if (entry v).isSome then w == .w1 else covers v w)

/-- The windows of the menus, which a request or an alert does not push. -/
def menu : Win → Bool
  | .w3 | .w25 | .w26 | .w27 => false
  | _ => true

/-- The windows that display the one below as they leave. -/
def handsOver : Win → Bool
  | .w4 | .w5 | .w6 | .w7 | .w13 | .w15 | .w16 | .w17 | .w18 | .w19 => true
  | _ => false

/-- The windows they display. -/
def landing (v : Win) : Bool := basement v || v == .w7

theorem covers_handsOver {u l : Win} (hu : handsOver u = true) (h : covers u l = true) : l ≠ u ∧ landing l = true := by
  constructor
  · rintro rfl
    cases l <;> first | exact absurd hu (by decide) | exact absurd h (by decide)
  · cases u <;> first | exact absurd hu (by decide) | skip
    all_goals simp_all [covers, landing, basement]

/-- Top first: every window lies where it may, the main menu at the bottom. -/
def Tree : List Win → Prop
  | [] => False
  | [w] => w = .w1
  | w :: v :: rest => covers w v = true ∧ Tree (v :: rest)

theorem Tree.cons {w v : Win} {ws : List Win} (h : Tree ws) (hv : ws.head? = some v) (hw : covers w v = true) :
    Tree (w :: ws) := by
  cases ws with
  | nil => cases hv
  | cons u rest =>
    obtain rfl : u = v := by simpa using hv
    exact ⟨hw, h⟩

/-- Under a window other than the main menu there is one it may lie over. -/
theorem Tree.below {w : Win} {ws : List Win} (h : Tree ws) (hw : ws.head? = some w) (h1 : w ≠ .w1) :
    ∃ v rest, ws = w :: v :: rest ∧ covers w v = true ∧ Tree (v :: rest) := by
  match ws, h, hw with
  | [u], h, hw =>
    obtain rfl : u = w := by simpa using hw
    exact absurd h h1
  | u :: v :: rest, h, hw =>
    obtain rfl : u = w := by simpa using hw
    exact ⟨v, rest, rfl, h.1, h.2⟩

theorem Tree.main {ws : List Win} (h : Tree ws) (hw : ws.head? = some .w1) : ws = [.w1] := by
  match ws, h, hw with
  | [u], h, hw => rw [h]
  | u :: v :: rest, h, hw =>
    obtain rfl : u = .w1 := by simpa using hw
    exact absurd h.1 (by simp [covers])

theorem Tree.top {ws : List Win} (h : Tree ws) : ∃ w, ws.head? = some w := by
  cases ws with
  | nil => exact h.elim
  | cons w rest => exact ⟨w, rfl⟩

namespace Stack
variable {a : Stack} {v w : Win}

@[simp] theorem flag_push (a : Stack) (w : Win) : (a.push w).flag = a.flag := rfl
@[simp] theorem flag_pop (a : Stack) : a.pop.flag = a.flag := rfl
@[simp] theorem wins_set (a : Stack) (w : Win) (n : Nat) : (a.set w n).wins = a.wins := rfl
@[simp] theorem took_push (a : Stack) (w : Win) : (a.push w).took = a.took := rfl
@[simp] theorem flag_set_self (a : Stack) (w : Win) (n : Nat) : (a.set w n).flag w = n := by simp [set]

theorem flag_set_of_ne {u : Win} (h : u ≠ w) (a : Stack) (n : Nat) : (a.set w n).flag u = a.flag u := by
  simp [set, h]

/-- A push leaves the top or puts the window there. -/
theorem tree_push (h : Tree a.wins) (hv : a.wins.head? = some v) (hw : covers w v = true) : Tree (a.push w).wins := by
  simp only [push]
  split
  · exact h
  · exact h.cons hv hw

theorem head_push (a : Stack) (w : Win) : (a.push w).wins.head? = a.wins.head? ∨ (a.push w).wins.head? = some w := by
  simp only [push]
  split
  · exact .inl rfl
  · exact .inr rfl

theorem wins_push (h : a.wins.length < guiWinManageNum) (w : Win) : (a.push w).wins = w :: a.wins :=
  if_neg (Nat.not_le.mpr h)

/-- `JumptoMainWin` ends on the main window alone. -/
theorem wins_home (h : a.wins = []) : (a.push .w1).wins = [.w1] := by
  rw [wins_push (by rw [h]; decide), h]

/-- The settings menu opens over the main window. -/
theorem wins_settings (h : Tree a.wins) (hw : a.wins.head? = some .w1) : ((a.set .w1 0).push .w14).wins = [.w14, .w1] := by
  have hmain : (a.set .w1 0).wins = [.w1] := h.main hw
  rw [wins_push (by rw [hmain]; decide), hmain]

/-- A pop uncovers the window below. -/
theorem pop_below (h : Tree a.wins) (hw : a.wins.head? = some w) (h1 : w ≠ .w1) :
    ∃ v, a.pop.wins.head? = some v ∧ covers w v = true ∧ Tree a.pop.wins := by
  obtain ⟨v, rest, hws, hover, htree⟩ := h.below hw h1
  have hpop : a.pop.wins = v :: rest := by simp [pop, hws]
  rw [hpop]
  exact ⟨v, rfl, hover, htree⟩

/-- No operation but a draw sets a flag. -/
theorem flag_after {o : Op} {r : Res o} {u : Win} (hu : (a.after o r).flag u ≠ 0) :
    a.flag u ≠ 0 ∨ ∃ n, n ≠ 0 ∧ o = .store (.firstFlag u) n := by
  cases o with
  | store v n =>
    cases v with
    | firstFlag w =>
      by_cases huw : u = w
      · subst huw
        refine .inr ⟨n, fun e => hu ?_, rfl⟩
        rw [e]
        exact flag_set_self a u 0
      · exact .inl (by rwa [show (a.after (.store (.firstFlag w) n) r) = a.set w (n % 2 ^ 8) from rfl,
          flag_set_of_ne huw] at hu)
    | _ => exact .inl hu
  | semTake k =>
    refine .inl fun e => hu ?_
    simp only [after, take]
    split <;> exact e
  | memsetFirstFlag =>
    refine .inl fun e => hu ?_
    by_cases h27 : u = .w27
    · subst h27
      exact e
    · exact if_neg h27
  | _ => exact .inl hu

theorem wipe_flag (h : a.flag .w27 = 0) (w : Win) : a.wipe.flag w = 0 := by
  by_cases hw : w = .w27
  · rw [hw]
    exact h
  · exact if_neg hw

end Stack

/-! ### Flags -/

/-- The flag of the settings menu can outlast a long press taken together with K2,
and the flag of window 27 a `memset`; `lax` says which of the two a property puts up with. -/
def Stale (lax : Win → Bool) (u : Win) : Prop := lax u = true ∧ (u = .w14 ∨ u = .w27)

/-- A tree in which only the window on top is drawn. -/
structure Tidy (lax : Win → Bool) (a : Stack) : Prop where
  tree : Tree a.wins
  flag : ∀ u, a.flag u ≠ 0 → a.wins.head? = some u ∨ Stale lax u

/-- What a display does inside a window function: it draws the window on top, or the
settings menu reads its keys. -/
structure Uncovers (a b : Stack) : Prop where
  tree : Tree b.wins
  flag : ∀ u, b.flag u ≠ 0 → (b.wins.head? = some u ∧ a.wins.head? = some u) ∨ a.flag u ≠ 0
  top : b.wins.head? = a.wins.head? ∨ ∃ v, b.wins.head? = some v ∧ basement v = true

namespace Tidy
variable {lax : Win → Bool} {a b : Stack} {u v w : Win}

/-- Only the window on top, or a stale one, has its flag set. -/
theorem lit (h : Tidy lax a) (hw : a.wins.head? = some w) (hu : a.flag u ≠ 0) : u = w ∨ Stale lax u :=
  (h.flag u hu).imp_left fun e => Option.some.inj (e.symm.trans hw)

/-- Which keys were taken does not matter. -/
theorem congr (h : Tidy lax a) (hw : b.wins = a.wins) (hf : b.flag = a.flag) : Tidy lax b := by
  refine ⟨hw ▸ h.tree, fun u hu => ?_⟩
  rw [hf] at hu
  rw [hw]
  exact h.flag u hu

theorem flag_main (h : Tidy lax a) (hw : a.wins.head? = some w) (h1 : w ≠ .w1) : a.flag .w1 = 0 := by
  by_contra hne
  rcases h.lit hw hne with e | ⟨-, e | e⟩
  · exact h1 e.symm
  · cases e
  · cases e

/-- The flag of the top window is cleared, and the stack changed to another tree. -/
theorem clear (h : Tidy lax a) (hw : a.wins.head? = some w) (hb : Tree b.wins)
    (hflag : ∀ u, u ≠ w → b.flag u = a.flag u) (hself : b.flag w = 0) : Tidy lax b := by
  refine ⟨hb, fun u hu => ?_⟩
  by_cases huw : u = w
  · subst huw
    exact absurd hself hu
  · rw [hflag u huw] at hu
    exact .inr ((h.lit hw hu).resolve_left huw)

/-- A flag may be cleared at any time. -/
theorem set_zero (h : Tidy lax a) (w : Win) : Tidy lax (a.set w 0) := by
  refine ⟨h.tree, fun u hu => h.flag u fun e => hu ?_⟩
  by_cases huw : u = w
  · subst huw
    exact Stack.flag_set_self a u 0
  · rw [Stack.flag_set_of_ne huw, e]

/-- The window on top may be drawn. -/
theorem set_top (h : Tidy lax a) (hw : a.wins.head? = some w) (n : Nat) : Tidy lax (a.set w n) := by
  refine ⟨h.tree, fun u hu => ?_⟩
  by_cases huw : u = w
  · subst huw
    exact .inl hw
  · exact h.flag u (by rwa [Stack.flag_set_of_ne huw] at hu)

theorem pop_set (h : Tidy lax a) (hw : a.wins.head? = some w) (h1 : w ≠ .w1) : Tidy lax (a.pop.set w 0) := by
  obtain ⟨v, -, -, htree⟩ := Stack.pop_below h.tree hw h1
  exact h.clear hw htree (fun _ hu => Stack.flag_set_of_ne hu a.pop 0) (Stack.flag_set_self a.pop w 0)

theorem push_set (h : Tidy lax a) (hw : a.wins.head? = some w) (hv : covers v w = true) :
    Tidy lax ((a.push v).set w 0) :=
  h.clear hw (Stack.tree_push h.tree hw hv) (fun _ hu => Stack.flag_set_of_ne hu (a.push v) 0)
    (Stack.flag_set_self (a.push v) w 0)

/-- After a pop the window below is not drawn, but for the settings menu. -/
theorem fresh (h : Tidy lax a) (hw : a.wins.head? = some w) (hwv : v ≠ w) (hland : landing v = true) :
    a.flag v = 0 ∨ (lax .w14 = true ∧ v = .w14) := by
  by_contra hn
  rw [not_or] at hn
  rcases h.lit hw hn.1 with e | ⟨hl, e | e⟩
  · exact hwv e
  · exact hn.2 ⟨e ▸ hl, e⟩
  · rw [e] at hland
    cases hland

/-- The window that called the display clears its own flag last. -/
theorem shown_set (h : Tidy lax a) (hw : a.wins.head? = some w) {c : Stack} (hb : Uncovers c b)
    (ha : c.flag = a.flag) : Tidy lax (b.set w 0) := by
  refine ⟨hb.tree, fun u hu => ?_⟩
  by_cases huw : u = w
  · subst huw
    exact absurd (Stack.flag_set_self b u 0) hu
  · rw [Stack.flag_set_of_ne huw] at hu
    rcases hb.flag u hu with e | e
    · exact .inl e.1
    · rw [ha] at e
      exact .inr ((h.lit hw e).resolve_left huw)

/-- The window that called the display had cleared its flag before. -/
theorem shown (h : Tidy lax a) (hw : a.wins.head? = some w) {c : Stack} (hb : Uncovers c b)
    (ha : c.flag = (a.set w 0).flag) : Tidy lax b := by
  refine ⟨hb.tree, fun u hu => ?_⟩
  rcases hb.flag u hu with e | e
  · exact .inl e.1
  · rw [ha] at e
    refine .inr (((h.set_zero w).lit hw e).resolve_left fun huw => ?_)
    subst huw
    exact e (Stack.flag_set_self a u 0)

/-- After a `memset` nothing is drawn, but for window 27. -/
theorem wipe (h : Tidy lax a) (h27 : lax .w27 = true ∨ a.flag .w27 = 0) :
    Tidy lax a.wipe ∧ ∀ u, a.wipe.flag u ≠ 0 → Stale lax u := by
  have hstale : ∀ u, a.wipe.flag u ≠ 0 → Stale lax u := by
    intro u hu
    by_cases hu27 : u = .w27
    · subst hu27
      exact ⟨h27.resolve_right hu, .inr rfl⟩
    · exact absurd (if_neg hu27) hu
  exact ⟨⟨h.tree, fun u hu => .inr (hstale u hu)⟩, hstale⟩

/-- A request or an alert is pushed over whatever is there. -/
theorem push_wiped (h : Tidy lax a) (hflag : ∀ u, b.flag u ≠ 0 → Stale lax u) (hb : b.wins = (a.push v).wins)
    (hv : menu v = false) : Tidy lax b := by
  refine ⟨?_, fun u hu => .inr (hflag u hu)⟩
  obtain ⟨l, hl⟩ := h.tree.top
  rw [hb]
  exact Stack.tree_push h.tree hl (by cases v <;> first | rfl | cases hv)

end Tidy

end Backwash.Lcd
