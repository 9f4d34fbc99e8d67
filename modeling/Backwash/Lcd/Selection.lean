import Backwash.Lcd.Reach

/-! The selected entry and the windows it is left to.

`NowButtonId` is one variable for all windows. A window that uses it to find a button
sets it as it draws itself, and steps it within its own range; it is the other windows
that must not leave it too large for a window that is drawn already. `Held` says that
they do not, for every window that can still come to the top. -/
namespace Backwash.Lcd.Selection
open Firmware Reach

/-! ### What the windows do with it -/

/-- The largest entry with which a drawn window keeps within the buttons. -/
def limit : Win → Nat
  | .w7 | .w8 | .w14 => 3
  | .w9 | .w10 | .w11 | .w12 | .w20 => 2
  | _ => 5

/-- The largest entry a window leaves behind of its own. -/
def leaves : Win → Nat
  | .w7 | .w8 | .w14 => 3
  | _ => 2

/-- How deep in the menus a window lies, from the main menu on; 6 may lie over anything. -/
def tier : Win → Nat
  | .w1 | .w22 | .w24 => 0
  | .w14 => 1
  | .w15 | .w16 | .w17 | .w18 | .w19 | .w20 | .w21 => 2
  | .w2 | .w4 | .w5 | .w6 | .w7 => 3
  | .w8 | .w12 | .w13 | .w23 => 4
  | .w9 | .w10 | .w11 => 5
  | .w3 | .w25 | .w26 | .w27 => 6

/-- The window finds its buttons by `NowButtonId`. -/
def indexes (w : Win) : Bool := limit w != 5

theorem two_le_limit (w : Win) : 2 ≤ limit w := by cases w <;> decide
theorem two_le_leaves (w : Win) : 2 ≤ leaves w := by cases w <;> decide
theorem leaves_le (w : Win) : leaves w ≤ 3 := by cases w <;> decide

theorem leaves_eq {w : Win} (h : indexes w = true) : leaves w = limit w := by
  cases w <;> first | rfl | cases h

/-! ### The invariant -/

/-- Menus lie over menus of a lower tier, and what a window leaves behind is within the limit
of the drawn windows under it. -/
structure Ordered (flag : Win → Nat) (r : List Win) : Prop where
  tier_pos : ∀ w ∈ r, 0 < tier w
  pairs : r.Pairwise fun u l => (tier l < tier u ∨ tier u = 6) ∧ (flag l ≠ 0 → leaves u ≤ limit l)

/-- The entry is within the limit of every drawn window. -/
def Suits (now : Nat) (flag : Win → Nat) (r : List Win) : Prop := ∀ w ∈ r, flag w ≠ 0 → now ≤ limit w

/-- Nothing is over window `w`, and what it leaves behind suits the others. -/
structure Over (w : Win) (flag : Win → Nat) (r : List Win) : Prop where
  top : w ∉ r.tail
  tier_le : ∀ u ∈ r, tier u ≤ tier w
  suits : ∀ u ∈ r, flag u ≠ 0 → u = w ∨ leaves w ≤ limit u

/-- The entry is one of the five buttons, but for a moment: from entry 4 the main menu goes on
to 5 and then draws itself with entry 0. -/
def Sane (x : Screen) : Prop := x.now ≤ 4 ∨ (x.now = 5 ∧ x.flag .w1 = 0 ∧ x.page ≠ 1)

/-- All is in order, and would be after up to `n` pops. -/
structure Held (n : Nat) (x : Screen) : Prop where
  deep : Deep (fun flag r => Ordered flag r ∧ Suits x.now flag r) n x
  sane : Sane x

/-- Inside window `w`, whatever the entry is at the moment. -/
def Within (w : Win) (n : Nat) (x : Screen) : Prop := Deep (fun flag r => Ordered flag r ∧ Over w flag r) n x

section
variable {f g : Win → Nat} {r s : List Win} {w : Win}

theorem Ordered.nil (f : Win → Nat) : Ordered f [] := ⟨fun _ h => absurd h List.not_mem_nil, List.Pairwise.nil⟩

/-- A flag may be set that matters to nobody: of a window that does not index the buttons, or of
one that nothing lies over. -/
theorem Ordered.congr (h : Ordered f r) (hg : ∀ w, g w ≠ 0 → f w ≠ 0 ∨ limit w = 5 ∨ w ∉ r.tail) : Ordered g r := by
  refine ⟨h.tier_pos, ?_⟩
  cases r with
  | nil => exact List.Pairwise.nil
  | cons u r =>
    have hkey : ∀ (v l : Win), l ∈ r → g l ≠ 0 → (f l ≠ 0 → leaves v ≤ limit l) → leaves v ≤ limit l := by
      intro v l hl hgl hv
      rcases hg l hgl with hf | h5 | htail
      · exact hv hf
      · rw [h5]
        exact Nat.le_trans (leaves_le v) (by decide)
      · exact absurd hl htail
    obtain ⟨htop, hrest⟩ := List.pairwise_cons.mp h.pairs
    exact List.pairwise_cons.mpr ⟨fun l hl => ⟨(htop l hl).1, fun hgl => hkey u l hl hgl (htop l hl).2⟩,
      hrest.imp_of_mem fun {v l} _ hl hvl => ⟨hvl.1, fun hgl => hkey v l hl hgl hvl.2⟩⟩

theorem Ordered.clear (h : Ordered f r) (hg : ∀ w, g w = f w ∨ g w = 0) : Ordered g r :=
  h.congr fun w hw => .inl fun e => hw ((hg w).elim (fun h => h.trans e) id)

theorem Ordered.suffix (h : Ordered f r) (hs : s <:+ r) : Ordered f s :=
  ⟨fun w hw => h.tier_pos w (hs.subset hw), h.pairs.sublist hs.sublist⟩

theorem Ordered.cons (h : Ordered f r) (hpos : 0 < tier w) (htier : ∀ l ∈ r, tier l < tier w ∨ tier w = 6)
    (hleaves : ∀ l ∈ r, f l ≠ 0 → leaves w ≤ limit l) : Ordered f (w :: r) := by
  refine ⟨fun u hu => ?_, List.pairwise_cons.mpr ⟨fun l hl => ⟨htier l hl, hleaves l hl⟩, h.pairs⟩⟩
  rcases List.mem_cons.mp hu with rfl | hu
  · exact hpos
  · exact h.tier_pos u hu

theorem Suits.clear {now : Nat} (h : Suits now f r) (hg : ∀ w, g w = f w ∨ g w = 0) : Suits now g r :=
  fun w hw hgw => h w hw fun e => hgw ((hg w).elim (fun h => h.trans e) id)

/-- A menu that comes to the top lies over everything in reach. -/
theorem Over.of_ordered (h : Ordered f (w :: r)) (hw : tier w ≠ 6) (hs : s <:+ w :: r) : Over w f s := by
  obtain ⟨htop, -⟩ := List.pairwise_cons.mp h.pairs
  have hlt : ∀ l ∈ r, tier l < tier w := fun l hl => (htop l hl).1.resolve_right hw
  have hnot : w ∉ r := fun hmem => Nat.lt_irrefl _ (hlt w hmem)
  refine ⟨fun hmem => ?_, fun u hu => ?_, fun u hu hf => ?_⟩
  · cases s with
    | nil => cases hmem
    | cons v s =>
      have htail : s <:+ r := by
        rcases List.suffix_cons_iff.mp hs with e | hs
        · exact (List.cons.inj e).2 ▸ List.suffix_refl s
        · exact (List.suffix_cons ..).trans hs
      exact hnot (htail.subset hmem)
  · rcases List.mem_cons.mp (hs.subset hu) with rfl | hu
    · exact Nat.le_refl _
    · exact Nat.le_of_lt (hlt u hu)
  · rcases List.mem_cons.mp (hs.subset hu) with rfl | hu
    · exact .inl rfl
    · exact .inr ((htop u hu).2 hf)

theorem mild_held (now : Nat) : Mild fun f r => Ordered f r ∧ Suits now f r :=
  ⟨fun f => ⟨Ordered.nil f, fun _ h => absurd h List.not_mem_nil⟩, fun hg h => ⟨h.1.clear hg, h.2.clear hg⟩⟩

theorem mild_within (w : Win) : Mild fun f r => Ordered f r ∧ Over w f r := by
  refine ⟨fun f => ⟨Ordered.nil f, by simp, fun _ h => absurd h List.not_mem_nil, fun _ h => absurd h List.not_mem_nil⟩,
    fun {f g r} hg h => ⟨h.1.clear hg, h.2.top, h.2.tier_le, fun u hu hgu => h.2.suits u hu fun e => hgu ?_⟩⟩
  exact (hg u).elim (fun h => h.trans e) id

end

/-! ### The view -/

section
variable {w : Win} {n : Nat} {x y : Screen}

theorem Sane.drift (h : Sane x) (hxy : Drift x y) : Sane y := by
  unfold Sane
  rw [hxy.now, hxy.page]
  exact h.imp_right fun ⟨h5, h1, hp⟩ => ⟨h5, hxy.undrawn h1, hp⟩

theorem Sane.now_le (h : Sane x) : x.now ≤ 5 := by
  rcases h with h | ⟨h, -, -⟩ <;> omega

theorem Held.drift (h : Held n x) (hxy : Drift x y) : Held n y := by
  refine ⟨?_, h.sane.drift hxy⟩
  rw [hxy.now]
  exact h.deep.drift (mild_held x.now) hxy

theorem Within.drift (h : Within w n x) (hxy : Drift x y) : Within w n y := Deep.drift (mild_within w) h hxy

theorem Held.mono (h : Held n x) {m : Nat} (hm : m ≤ n) : Held m x := ⟨h.deep.mono hm, h.sane⟩

/-- The window on top, and what its function may pop, is in order. -/
theorem Held.enter (h : Held 0 x) (hw : x.wins.head? = some w) (hmain : w ≠ .w1) : Held 1 x :=
  ⟨Deep.enter (fun hs h => ⟨h.1.suffix hs, fun u hu => h.2 u (hs.subset hu)⟩) h.deep.now hw hmain, h.sane⟩

theorem exists_cons (hw : x.wins.head? = some w) : ∃ ws, x.wins = w :: ws := by
  cases hx : x.wins with
  | nil => rw [hx] at hw; cases hw
  | cons u ws =>
    rw [hx] at hw
    exact ⟨ws, by rw [Option.some.inj hw]⟩

theorem Held.enter_two (h : Held 0 x) (hw : x.wins.head? = some .w23) : Held 2 x := by
  refine ⟨fun i hi => ?_, h.sane⟩
  rcases Nat.lt_or_eq_of_le hi with hi | rfl
  · exact (h.enter hw (by decide)).deep i (Nat.le_of_lt_succ hi)
  · obtain ⟨ws, hws⟩ := exists_cons hw
    have hnow := h.deep.now
    rw [hws] at hnow ⊢
    have hs := reach_popped_two ws
    exact ⟨hnow.1.suffix hs, fun u hu => hnow.2 u (hs.subset hu)⟩

/-- Windows 22 and 24 are never opened. -/
theorem Held.tier_pos (h : Held 0 x) (hw : x.wins.head? = some w) (hmain : w ≠ .w1) : 0 < tier w := by
  obtain ⟨ws, hws⟩ := exists_cons hw
  refine h.deep.now.1.tier_pos w ?_
  rw [hws, reach_cons hmain]
  exact List.mem_cons_self ..

theorem Held.within (h : Held 0 x) (hw : x.wins.head? = some w) (hmain : w ≠ .w1) (htier : tier w ≠ 6) : Within w 1 x := by
  obtain ⟨ws, hws⟩ := exists_cons hw
  have hreach : reach x.wins = w :: reachFrom (w == .w23) ws := by rw [hws, reach_cons hmain]
  have hnow : Ordered x.flag (w :: reachFrom (w == .w23) ws) := hreach ▸ h.deep.now.1
  intro i hi
  have hs : reach (popped i x.wins) <:+ w :: reachFrom (w == .w23) ws := by
    rw [← hreach, hws]
    rcases Nat.le_one_iff_eq_zero_or_eq_one.mp hi with rfl | rfl
    · exact List.suffix_refl _
    · exact reach_popped hmain ws
  exact ⟨hnow.suffix hs, Over.of_ordered hnow htier hs⟩

/-- A drawn window that came to the top has an entry within its limit. -/
theorem Held.suits_top (h : Held 0 x) (hw : x.wins.head? = some w) (hmain : w ≠ .w1) (hf : x.flag w ≠ 0) :
    x.now ≤ limit w := by
  obtain ⟨ws, hws⟩ := exists_cons hw
  refine h.deep.now.2 w ?_ hf
  rw [hws, reach_cons hmain]
  exact List.mem_cons_self ..

/-- With its entry in its own range, the window leaves all in order. -/
theorem Within.held (h : Within w n x) (hi : indexes w = true) (hn : x.now ≤ leaves w) : Held n x := by
  refine ⟨h.same rfl fun r hr => ⟨hr.1, fun u hu hf => ?_⟩, .inl ?_⟩
  · rcases hr.2.suits u hu hf with rfl | hle
    · rw [← leaves_eq hi]
      exact hn
    · exact Nat.le_trans hn hle
  · have := leaves_le w
    omega

end

/-! ### While the main menu has its keys

After a long press the settings menu, or a window it has opened, is on top while the main
menu goes on: only what is on top can be drawn. -/

structure Late (c : Nat) (x : Screen) : Prop where
  ordered : Ordered x.flag (reach x.wins)
  suits : Suits x.now x.flag (reach x.wins)
  tier_le : ∀ w ∈ reach x.wins, tier w ≤ 2
  undrawn : ∀ w ∈ (reach x.wins).tail, x.flag w = 0
  choice : .w20 ∈ reach x.wins → x.flag .w20 ≠ 0 → x.now ≤ c

section
variable {w v : Win} {n c : Nat} {x y : Screen}

theorem Late.of_nil (h : reach x.wins = []) : Late c x := by
  refine ⟨?_, ?_, ?_, ?_, ?_⟩ <;> rw [h]
  · exact Ordered.nil _
  · exact fun _ h => absurd h List.not_mem_nil
  · exact fun _ h => absurd h List.not_mem_nil
  · exact fun _ h => absurd h List.not_mem_nil
  · exact fun h => absurd h List.not_mem_nil

theorem Late.drift (h : Late c x) (hxy : Drift x y) : Late c y := by
  rcases hxy.reach_wins with e | e
  · exact Late.of_nil e
  · refine ⟨?_, ?_, ?_, ?_, ?_⟩ <;> rw [e]
    · exact h.ordered.clear hxy.flag
    · rw [hxy.now]
      exact h.suits.clear hxy.flag
    · exact h.tier_le
    · exact fun w hw => hxy.undrawn (h.undrawn w hw)
    · rw [hxy.now]
      exact fun hw hf => h.choice hw (hxy.drawn hf)

theorem Late.mono (h : Late c x) {d : Nat} (hd : c ≤ d) : Late d x :=
  ⟨h.ordered, h.suits, h.tier_le, h.undrawn, fun hw hf => Nat.le_trans (h.choice hw hf) hd⟩

/-- The page does not matter. -/
theorem Late.same (h : Late c x) (hw : y.wins = x.wins) (hf : y.flag = x.flag) (hn : y.now = x.now) : Late c y := by
  refine ⟨?_, ?_, ?_, ?_, ?_⟩ <;> rw [hw]
  · rw [hf]
    exact h.ordered
  · rw [hf, hn]
    exact h.suits
  · exact h.tier_le
  · rw [hf]
    exact h.undrawn
  · rw [hf, hn]
    exact h.choice

theorem Late.held (h : Late c x) (hs : Sane x) : Held 0 x := by
  refine ⟨fun i hi => ?_, hs⟩
  obtain rfl : i = 0 := Nat.le_zero.mp hi
  exact ⟨h.ordered, h.suits⟩

/-- A drawn window in reach is on top. -/
theorem Late.top (h : Late c x) (hw : w ∈ reach x.wins) (hf : x.flag w ≠ 0) : x.wins.head? = some w := by
  cases hx : x.wins with
  | nil => rw [hx] at hw; cases hw
  | cons u ws =>
    by_cases hu : u = .w1
    · subst hu
      rw [hx] at hw
      cases hw
    · have htail := h.undrawn
      rw [hx, reach_cons hu] at hw htail
      rcases List.mem_cons.mp hw with rfl | hw
      · rfl
      · exact absurd (htail w hw) hf

/-- Another entry is stored, over 3 only while neither the settings menu nor window 20 is on top
and drawn. -/
theorem Late.store (h : Late c x) (hw : y.wins = x.wins) (hf : y.flag = x.flag) (hn : y.now ≤ 5) {d : Nat} (hd : d ≤ 2)
    (hlarge : 3 < y.now → ∀ w, w = .w14 ∨ w = .w20 → x.wins.head? = some w → x.flag w = 0)
    (hchoice : y.now ≤ 3 → .w20 ∈ reach x.wins → x.flag .w20 ≠ 0 → y.now ≤ d) : Late d y := by
  have h20 : .w20 ∈ reach x.wins → x.flag .w20 ≠ 0 → y.now ≤ d := fun hmem hf => by
    by_cases hle : y.now ≤ 3
    · exact hchoice hle hmem hf
    · exact absurd (hlarge (Nat.not_le.mp hle) .w20 (.inr rfl) (h.top hmem hf)) hf
  refine ⟨?_, ?_, ?_, ?_, ?_⟩ <;> rw [hw]
  · rw [hf]
    exact h.ordered
  · rw [hf]
    intro w hmem hwf
    by_cases hw20 : w = .w20
    · subst hw20
      exact Nat.le_trans (h20 hmem hwf) hd
    by_cases hw14 : w = .w14
    · subst hw14
      by_contra hle
      exact hwf (hlarge (Nat.not_le.mp hle) .w14 (.inl rfl) (h.top hmem hwf))
    · have h5 : limit w = 5 := by
        have htier := h.tier_le w hmem
        have hpos := h.ordered.tier_pos w hmem
        cases w <;> simp_all [tier, limit]
      rw [h5]
      exact hn
  · exact h.tier_le
  · rw [hf]
    exact h.undrawn
  · rw [hf]
    exact h20

/-- Inside the settings menu nothing else is in reach. -/
theorem Within.settings (h : Within .w14 n x) : ∀ w ∈ reach x.wins, w = .w14 := by
  intro w hw
  obtain ⟨hordered, hover⟩ := h.now
  have hpos := hordered.tier_pos w hw
  have hle := hover.tier_le w hw
  cases w <;> simp_all [tier]

theorem Within.late (h : Within .w14 n x) (hf : x.flag .w14 ≠ 0 → x.now ≤ 3) : Late c x := by
  have hall := h.settings
  obtain ⟨hordered, hover⟩ := h.now
  refine ⟨hordered, fun w hw => ?_, fun w hw => ?_, fun w hw => ?_, fun hw => ?_⟩
  · rw [hall w hw]
    exact hf
  · rw [hall w hw]
    decide
  · exact absurd (hall w (List.mem_of_mem_tail hw) ▸ hw) hover.top
  · cases hall _ hw

/-- The settings menu, which has cleared its flag, opens an entry. -/
theorem Within.late_push (h : Within .w14 n x) (h14 : x.flag .w14 = 0) (hv : tier v = 2)
    (hfit : x.flag v ≠ 0 → x.now ≤ limit v) (hw : y.wins = (x.toStack.push v).wins) (hf : y.flag = x.flag)
    (hn : y.now = x.now) : Late 2 y := by
  have hall := h.settings
  by_cases hfull : x.wins.length ≥ guiWinManageNum
  · exact (h.late fun hf => absurd h14 hf).same (hw.trans (if_pos hfull)) hf hn
  have hmain : v ≠ .w1 := fun e => by rw [e] at hv; cases hv
  have hreach : reach y.wins = v :: reach x.wins := by
    rw [hw.trans (if_neg hfull)]
    obtain ⟨i, hi, hreach⟩ := reach_push hmain x.wins
    rcases hi with rfl | ⟨rfl, -⟩
    · exact hreach
    · cases hv
  have hleaves : leaves v = 2 := by cases v <;> first | rfl | cases hv
  refine ⟨?_, ?_, ?_, ?_, ?_⟩ <;> rw [hreach]
  · rw [hf]
    refine h.now.1.cons (by omega) (fun l hl => .inl ?_) fun l _ _ => ?_
    · rw [hall l hl, hv]
      decide
    · rw [hleaves]
      exact two_le_limit l
  · rw [hf, hn]
    intro u hu huf
    rcases List.mem_cons.mp hu with rfl | hu
    · exact hfit huf
    · exact absurd h14 (hall u hu ▸ huf)
  · intro u hu
    rcases List.mem_cons.mp hu with rfl | hu
    · exact Nat.le_of_eq hv
    · rw [hall u hu]
      decide
  · intro u hu
    rw [hf, hall u hu]
    exact h14
  · rw [hf, hn]
    intro hu huf
    rcases List.mem_cons.mp hu with rfl | hu
    · exact hfit huf
    · cases hall _ hu

end

end Backwash.Lcd.Selection
