import Backwash.Lcd.Screen

/-! What can come to the top of the window stack.

`JumptoMainWin` may fall anywhere in a pass: it clears the flags, empties the stack and
puts the main menu on it, and what a window function pushes or pops meanwhile is then
over or under that main menu. A main menu is never popped by its own function, so what
lies under one stays there, but for a window function that was already running and now
pops the main menu in its own window's place. `reach` are the windows that can still come
to the top. -/
namespace Backwash.Lcd.Reach
open Firmware

/-! ### Windows in reach -/

/-- The windows down to the first main menu; `skip` passes over one that is on top. Window 23
pops twice. -/
def reachFrom : Bool → List Win → List Win
  | _, [] => []
  | skip, w :: ws => if w = .w1 then (if skip = true then reachFrom false ws else []) else w :: reachFrom (w == .w23) ws

def reach (ws : List Win) : List Win := reachFrom false ws

/-- `GuiWinDeleteTop`, `n` times. -/
def popped : Nat → List Win → List Win
  | 0, ws => ws
  | n + 1, ws => popped n (if ws.length ≤ 1 then ws else ws.tail)

section
variable {w : Win} {ws : List Win}

@[simp] theorem reach_nil : reach [] = [] := rfl

@[simp] theorem reach_main (ws : List Win) : reach (.w1 :: ws) = [] := rfl

theorem reach_cons (hw : w ≠ .w1) (ws : List Win) : reach (w :: ws) = w :: reachFrom (w == .w23) ws := if_neg hw

theorem reach_skip (ws : List Win) : reach ws = [] ∨ reach ws = reachFrom true ws := by
  cases ws with
  | nil => exact .inl rfl
  | cons w ws =>
    by_cases hw : w = .w1
    · exact .inl (by rw [hw, reach_main])
    · exact .inr (by rw [reach_cons hw, reachFrom, if_neg hw])

/-- What is in reach under a window is in reach from above it. -/
theorem reach_suffix (skip : Bool) (ws : List Win) : reach ws <:+ reachFrom skip ws := by
  cases skip with
  | false => exact List.suffix_refl _
  | true =>
    rcases reach_skip ws with h | h
    · exact h ▸ List.nil_suffix
    · exact h ▸ List.suffix_refl _

theorem reach_below (hw : w ≠ .w1) (ws : List Win) : reach ws <:+ reach (w :: ws) := by
  rw [reach_cons hw]
  exact (reach_suffix _ ws).trans (List.suffix_cons ..)

theorem reach_popped (hw : w ≠ .w1) (ws : List Win) : reach (popped 1 (w :: ws)) <:+ reach (w :: ws) := by
  simp only [popped]
  split
  · exact List.suffix_refl _
  · exact reach_below hw ws

/-- Window 23 reaches two windows down, also past a main menu. -/
theorem reach_popped_two (ws : List Win) : reach (popped 2 (.w23 :: ws)) <:+ reach (.w23 :: ws) := by
  have h23 : reach (.w23 :: ws) = .w23 :: reachFrom true ws := rfl
  match ws with
  | [] => exact List.suffix_refl _
  | [u] => exact reach_below (by decide) [u]
  | u :: v :: rest =>
    have hpop : popped 2 (.w23 :: u :: v :: rest) = v :: rest := rfl
    rw [hpop, h23]
    refine List.IsSuffix.trans ?_ (List.suffix_cons ..)
    by_cases hu : u = .w1
    · subst hu
      exact List.suffix_refl _
    · have hskip : reachFrom true (u :: v :: rest) = reach (u :: v :: rest) := by
        rw [reach_cons hu, reachFrom, if_neg hu]
      rw [hskip]
      exact reach_below hu _

/-- A window that is pushed lies over what is in reach; over window 23's place a main menu does not count. -/
theorem reach_push (hw : w ≠ .w1) (ws : List Win) :
    ∃ i, (i = 0 ∨ w = .w23 ∧ i = 1) ∧ reach (w :: ws) = w :: reach (popped i ws) := by
  by_cases h23 : w = .w23
  · subst h23
    cases ws with
    | nil => exact ⟨0, .inl rfl, rfl⟩
    | cons u ws =>
      by_cases hu : u = .w1
      · subst hu
        refine ⟨1, .inr ⟨rfl, rfl⟩, ?_⟩
        cases ws <;> rfl
      · refine ⟨0, .inl rfl, ?_⟩
        show Win.w23 :: reachFrom true (u :: ws) = .w23 :: reachFrom false (u :: ws)
        rw [reachFrom, if_neg hu, reachFrom, if_neg hu]
  · refine ⟨0, .inl rfl, ?_⟩
    rw [reach_cons hw, show (w == Win.w23) = false by simpa using h23]
    rfl

theorem reach_replicate (k : Nat) (ws : List Win) :
    reach (List.replicate k .w1 ++ ws) = [] ∨ reach (List.replicate k .w1 ++ ws) = reach ws := by
  cases k with
  | zero => exact .inr rfl
  | succ k => exact .inl rfl

theorem popped_replicate (k n : Nat) (ws : List Win) :
    reach (popped n (List.replicate k .w1 ++ ws)) = [] ∨
      ∃ m ≤ n, reach (popped n (List.replicate k .w1 ++ ws)) = reach (popped m ws) := by
  induction n generalizing k with
  | zero => exact (reach_replicate k ws).imp_right fun h => ⟨0, Nat.le_refl 0, h⟩
  | succ n ih =>
    cases k with
    | zero => exact .inr ⟨n + 1, Nat.le_refl _, rfl⟩
    | succ k =>
      have hpop : popped (n + 1) (List.replicate (k + 1) .w1 ++ ws) =
          popped n (if (List.replicate (k + 1) Win.w1 ++ ws).length ≤ 1 then List.replicate (k + 1) .w1 ++ ws
            else List.replicate k .w1 ++ ws) := rfl
      rw [hpop]
      split
      · next hlen =>
        -- nothing but one main menu
        left
        obtain ⟨rfl, rfl⟩ : k = 0 ∧ ws = [] := by
          simp only [List.length_append, List.length_replicate] at hlen
          exact ⟨by omega, List.eq_nil_of_length_eq_zero (by omega)⟩
        have hmain : ∀ m, popped m [Win.w1] = [.w1] := fun m => by
          induction m with
          | zero => rfl
          | succ m ih => exact ih
        rw [show List.replicate (0 + 1) Win.w1 ++ [] = [.w1] from rfl, hmain]
        rfl
      · exact (ih k).imp_right fun ⟨m, hm, h⟩ => ⟨m, Nat.le_succ_of_le hm, h⟩

theorem popped_nil (n : Nat) : popped n [] = [] := by
  induction n with
  | zero => rfl
  | succ n ih => exact ih

end

/-! ### Interference -/

/-- What `JumptoMainWin` can do to the view between two operations of the display thread. -/
structure Drift (x y : Screen) : Prop where
  wins : ∃ k, y.wins = List.replicate k .w1 ++ x.wins ∨ y.wins = List.replicate k .w1
  flag : ∀ w, y.flag w = x.flag w ∨ y.flag w = 0
  page : y.page = x.page
  now : y.now = x.now

namespace Drift
variable {x y z : Screen}

/-- What is drifted from has the same windows, flags, page and entry. -/
theorem of_eq (hw : y.wins = x.wins) (hf : y.flag = x.flag) (hp : y.page = x.page) (hn : y.now = x.now) : Drift x y :=
  ⟨⟨0, .inl hw⟩, fun w => .inl (congrFun hf w), hp, hn⟩

theorem refl (x : Screen) : Drift x x := of_eq rfl rfl rfl rfl

theorem trans (h : Drift x y) (h' : Drift y z) : Drift x z := by
  refine ⟨?_, fun w => ?_, h'.page.trans h.page, h'.now.trans h.now⟩
  · obtain ⟨k, hk⟩ := h.wins
    obtain ⟨m, hm⟩ := h'.wins
    rcases hm with hm | hm
    · rcases hk with hk | hk
      · exact ⟨m + k, .inl (by rw [hm, hk, ← List.append_assoc, List.replicate_append_replicate])⟩
      · exact ⟨m + k, .inr (by rw [hm, hk, List.replicate_append_replicate])⟩
    · exact ⟨m, .inr hm⟩
  · rcases h'.flag w with e | e
    · rw [e]
      exact h.flag w
    · exact .inr e

theorem undrawn (h : Drift x y) {w : Win} (hw : x.flag w = 0) : y.flag w = 0 := by
  rcases h.flag w with e | e
  · rw [e, hw]
  · exact e

theorem drawn (h : Drift x y) {w : Win} (hw : y.flag w ≠ 0) : x.flag w ≠ 0 := fun e => hw (h.undrawn e)

theorem reach_popped (h : Drift x y) (n : Nat) :
    reach (popped n y.wins) = [] ∨ ∃ m ≤ n, reach (popped n y.wins) = reach (popped m x.wins) := by
  obtain ⟨k, hk⟩ := h.wins
  rcases hk with hk | hk
  · rw [hk]
    exact popped_replicate k n x.wins
  · rw [hk]
    rcases popped_replicate k n [] with e | ⟨m, -, e⟩
    · rw [List.append_nil] at e
      exact .inl e
    · rw [List.append_nil] at e
      exact .inl (by rw [e, popped_nil]; rfl)

theorem reach_wins (h : Drift x y) : reach y.wins = [] ∨ reach y.wins = reach x.wins := by
  refine (h.reach_popped 0).imp_right fun ⟨m, hm, e⟩ => ?_
  obtain rfl : m = 0 := Nat.le_zero.mp hm
  exact e

end Drift

/-! ### Properties of what is in reach -/

/-- A property of the flags and of the windows in reach that nothing in reach satisfies, and
that clearing a flag leaves. -/
structure Mild (K : (Win → Nat) → List Win → Prop) : Prop where
  nil : ∀ f, K f []
  clear : ∀ {f g r}, (∀ w, g w = f w ∨ g w = 0) → K f r → K g r

/-- It holds now and would hold after up to `n` pops. -/
def Deep (K : (Win → Nat) → List Win → Prop) (n : Nat) (x : Screen) : Prop :=
  ∀ i ≤ n, K x.flag (reach (popped i x.wins))

namespace Deep
variable {K L : (Win → Nat) → List Win → Prop} {n : Nat} {x y : Screen}

theorem now (h : Deep K n x) : K x.flag (reach x.wins) := h 0 (Nat.zero_le n)

theorem mono (h : Deep K n x) {m : Nat} (hm : m ≤ n) : Deep K m x := fun i hi => h i (Nat.le_trans hi hm)

/-- The stack is the same, and the flags have changed. -/
theorem same (h : Deep K n x) (hw : y.wins = x.wins) (hKL : ∀ r, K x.flag r → L y.flag r) : Deep L n y := by
  intro i hi
  rw [hw]
  exact hKL _ (h i hi)

theorem drift (hK : Mild K) (h : Deep K n x) (hxy : Drift x y) : Deep K n y := by
  intro i hi
  rcases hxy.reach_popped i with e | ⟨m, hm, e⟩
  · rw [e]
    exact hK.nil _
  · rw [e]
    exact hK.clear hxy.flag (h m (Nat.le_trans hm hi))

theorem pop (h : Deep K (n + 1) x) (hw : y.wins = x.toStack.pop.wins) (hf : y.flag = x.flag) : Deep K n y := by
  intro i hi
  have hpop : popped i y.wins = popped (i + 1) x.wins := by rw [hw]; rfl
  rw [hpop, hf]
  exact h (i + 1) (Nat.succ_le_succ hi)

/-- A window is pushed, if there is room. -/
theorem push {w : Win} (h : Deep K n x) (hmain : w ≠ .w1) (h23 : w = .w23 → 1 ≤ n)
    (hpush : ∀ i ≤ n, K x.flag (reach (popped i x.wins)) → K x.flag (w :: reach (popped i x.wins)))
    (hw : y.wins = (x.toStack.push w).wins) (hf : y.flag = x.flag) : Deep K n y := by
  by_cases hfull : x.wins.length ≥ guiWinManageNum
  · exact h.same (hw.trans (if_pos hfull)) fun r hr => hf ▸ hr
  have hwins : y.wins = w :: x.wins := hw.trans (if_neg hfull)
  have htop : K x.flag (reach (w :: x.wins)) := by
    obtain ⟨i, hi, hreach⟩ := reach_push hmain x.wins
    have hin : i ≤ n := by
      rcases hi with rfl | ⟨rfl, h1⟩
      · exact Nat.zero_le n
      · exact h1 ▸ h23 rfl
    rw [hreach]
    exact hpush i hin (h i hin)
  intro i hi
  rw [hwins, hf]
  cases i with
  | zero => exact htop
  | succ i =>
    cases hx : x.wins with
    | nil =>
      have hone : ∀ m, popped m [w] = [w] := fun m => by
        induction m with
        | zero => rfl
        | succ m ih => exact ih
      rw [hx] at htop
      rw [hone]
      exact htop
    | cons u ws =>
      have hpop : popped (i + 1) (w :: u :: ws) = popped i (u :: ws) := rfl
      rw [hpop, ← hx]
      exact h i (Nat.le_of_succ_le hi)

/-- On entering a window its own and those below are in reach. -/
theorem enter {w : Win} (hsuffix : ∀ {r s}, s <:+ r → K x.flag r → K x.flag s) (h : K x.flag (reach x.wins))
    (hw : x.wins.head? = some w) (hmain : w ≠ .w1) : Deep K 1 x := by
  obtain ⟨ws, hws⟩ : ∃ ws, x.wins = w :: ws := by
    cases hx : x.wins with
    | nil => rw [hx] at hw; cases hw
    | cons u ws =>
      rw [hx] at hw
      exact ⟨ws, by rw [Option.some.inj hw]⟩
  intro i hi
  rw [hws] at h ⊢
  rcases Nat.le_one_iff_eq_zero_or_eq_one.mp hi with rfl | rfl
  · exact h
  · exact hsuffix (reach_popped hmain ws) h

end Deep

end Backwash.Lcd.Reach
