import Backwash.Gui.Text

/-! Where drawing a text stays within its arrays.

`GuiBitMap` keeps column and row of a character apart from the edges of the screen, but its
columns are the rows of the character and `GuiFlipPoint` turns them round: what is kept below
128 is the row of the picture, what is kept below 64 the column. -/
namespace Backwash.Gui

/-- The access lies within `x_to_page[GUIXMAX][8]` or within `ASCII_5_7[ASCII_NUM]`. -/
def Access.InBounds : Access → Prop
  | .font o _ => o < 95
  | .page a b _ _ => 0 ≤ a ∧ a < guiXMax ∧ 0 ≤ b ∧ b < 8

instance (a : Access) : Decidable a.InBounds :=
  match a with
  | .font o _ => inferInstanceAs (Decidable (o < 95))
  | .page a b _ _ => inferInstanceAs (Decidable (0 ≤ a ∧ a < guiXMax ∧ 0 ≤ b ∧ b < 8))

theorem inBounds_point (x y : Int) (set : Bool) :
    (point x y set).InBounds ↔ 0 ≤ y ∧ y < guiXMax ∧ 0 ≤ x ∧ x < guiYMax := by
  simp only [point, Access.InBounds, guiXMax, guiYMax]
  omega

/-- What the clipping leaves of a character at column `tx` and row `y` lies on the screen:
there are `min 5 (63 - y)` columns of it and `min 7 (127 - tx)` rows. -/
def OnScreen (tx y : Int) : Prop := tx ≥ 127 ∨ y ≥ 63 ∨ tx + min 5 (63 - y) ≤ 128 ∧ y + min 7 (127 - tx) ≤ 64

/-- The font has no row for 0x7f, which `offset > ASCII_NUM` lets pass. -/
theorem inBounds_font {c : Nat} (hc : c ≤ 0x7f) : (∀ a ∈ (getFontASCII57 c []).1, a.InBounds) ↔ c ≠ 0x7f := by
  by_cases hlow : c < 0x20
  · rw [getFontASCII57_of_lt hlow]
    exact iff_of_true (by simp) (by omega)
  · rw [getFontASCII57_of_le (Nat.le_of_not_lt hlow) hc]
    simp only [List.forall_mem_map, Access.InBounds, List.mem_range]
    constructor
    · intro h
      have := h 0 (by decide)
      omega
    · intro h j _
      omega

theorem inBounds_points {tx y : Int} :
    (∀ j z : Nat, j < 5 → y + j < 63 → z < 7 → tx + z < 127 → tx + j < 128 ∧ y + z < 64) ↔ OnScreen tx y := by
  unfold OnScreen
  constructor
  · intro h
    by_cases hout : tx ≥ 127 ∨ y ≥ 63
    · exact hout.imp_right .inl
    · -- the last column and the last row that the clipping leaves
      have hlast := h (min 5 (63 - y) - 1).toNat (min 7 (127 - tx) - 1).toNat (by omega) (by omega) (by omega)
        (by omega)
      exact .inr (.inr (by omega))
  · intro h j z hj hj' hz hz'
    omega

theorem inBounds_prints {c : Nat} (hc : c ≤ 0x7f) {tx y : Int} (hx : 0 ≤ tx) (hy : 0 ≤ y) (inverted : Bool) :
    (∀ a, Prints c tx y inverted a → a.InBounds) ↔ c ≠ 0x7f ∧ OnScreen tx y := by
  rw [← inBounds_font hc, ← inBounds_points]
  constructor
  · intro h
    refine ⟨fun a ha => h a (.inl ha), fun j z hj hj' hz hz' => ?_⟩
    have hpoint := h _ (.inr ⟨j, z, hj, hj', hz, hz', rfl⟩)
    rw [inBounds_point] at hpoint
    exact ⟨hpoint.2.1, hpoint.2.2.2⟩
  · rintro ⟨hfont, hpoints⟩ a (ha | ⟨j, z, hj, hj', hz, hz', rfl⟩)
    · exact hfont a ha
    · have hpoint := hpoints j z hj hj' hz hz'
      rw [inBounds_point]
      exact ⟨by omega, hpoint.1, by omega, hpoint.2⟩

/-- **The accesses of a text lie within the arrays** if and only if none of the characters
drawn is 0x7f and what is left of each lies on the screen. -/
theorem text_in_bounds_iff (backcolor : Nat) (pBuff : List (BitVec 8)) (x y : Int) (wide : Nat) (flag : FontFlag)
    (s : List Nat) (hs : ∀ c ∈ s, 0x01 ≤ c ∧ c ≤ 0x7f) (hx : 0 ≤ x) (hx' : x < 128) (hy : 0 ≤ y) (hy' : y < 64) :
    (∀ a ∈ guiRowText defaultFont backcolor pBuff x y wide flag s, a.InBounds) ↔
      ∀ i, ∀ hi : i < s.length, lineBegins x wide flag s.length + 7 * i + 7 ≤ (x + wide) % 2 ^ 16 →
        s[i] ≠ 0x7f ∧ OnScreen (lineBegins x wide flag s.length + 7 * i) y := by
  have hs' : ∀ c ∈ s, c ≤ 0x7f := fun c hc => (hs c hc).2
  have hbegins := le_lineBegins x wide flag s.length
  have hprints : ∀ i, ∀ hi : i < s.length,
      ((∀ a, Prints s[i] (lineBegins x wide flag s.length + 7 * i) y (backcolor ≠ cWhitle) a → a.InBounds) ↔
        s[i] ≠ 0x7f ∧ OnScreen (lineBegins x wide flag s.length + 7 * i) y) :=
    fun i hi => inBounds_prints (hs' _ (List.getElem_mem hi)) (by omega) hy _
  simp only [mem_guiRowText hs' hx hy hy', ← hprints]
  constructor
  · intro h i hi hfit a ha
    exact h a ⟨i, hi, hfit, ha⟩
  · rintro h a ⟨i, hi, hfit, ha⟩
    exact h i hi hfit a ha

theorem text_in_bounds_iff_mid :
    (∀ a ∈ guiRowText defaultFont cWhitle [] 10 62 100 .mid [0x41, 0x7f], a.InBounds) ↔
      ∀ i, ∀ hi : i < [0x41, 0x7f].length,
        lineBegins 10 100 .mid 2 + 7 * (i : Nat) + 7 ≤ (10 + (100 : Nat) : Int) % 2 ^ 16 →
        [0x41, 0x7f][i] ≠ 0x7f ∧ OnScreen (lineBegins 10 100 .mid 2 + 7 * (i : Nat)) 62 :=
  text_in_bounds_iff cWhitle [] 10 62 100 .mid [0x41, 0x7f] (by decide) (by decide) (by decide) (by decide) (by decide)

/-- A letter on row 58 reaches row 64, in the page behind the last. -/
theorem text_out_of_bounds :
    ¬ ∀ a ∈ guiRowText defaultFont cWhitle [] 0 58 128 .left [0x41], a.InBounds := by
  decide +kernel

end Backwash.Gui
