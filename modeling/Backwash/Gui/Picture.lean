import Backwash.Gui.Text

/-! The picture of a text.

Over the way through the bitmap, with its rows for columns and its bits turned round, a
character comes out as the font has it: column `j` of the glyph in column `j`, and its bit `k`
in row `k`. -/
namespace Backwash.Gui

/-- What `BitExchange` turned round `GuiBitMap` reads from the other end. -/
theorem glyphColumn_bit {c j z : Nat} (hc : 0x20 ≤ c) (hc' : c ≤ 0x7f) (hj : j < 5) (hz : z < 8) :
    decide (glyphColumn c j &&& getBit z ≠ 0) = (ascii57At (c - 0x20) j).getLsbD z := by
  have hcolumn : glyphColumn c j = bitExchange (ascii57At (c - 0x20) j) := by
    rw [glyphColumn, getFontASCII57_of_le hc hc', List.getD_append _ _ _ _ (by simpa using hj)]
    simp [hj]
  rw [hcolumn]
  exact bitExchange_getBit _ ⟨z, hz⟩

theorem lineBegins_left (x : Int) (wide n : Nat) : lineBegins x wide .left n = x := by
  unfold lineBegins
  split <;> exact Int.add_zero x

/-- The picture of the characters `s` from column `x` and row `y` on. -/
def picture (s : List Nat) (x y : Int) (inverted : Bool) (c r : Int) : Bool :=
  (ascii57At (s.getD ((c - x) / 7).toNat 0 - 0x20) ((c - x) % 7).toNat).getLsbD (r - y).toNat != inverted

theorem picture_glyph {s : List Nat} {i j k : Nat} (hi : i < s.length) (hj : j < 7) (x y : Int) (inverted : Bool) :
    picture s x y inverted (x + 7 * i + j) (y + k) = ((ascii57At (s[i] - 0x20) j).getLsbD k != inverted) := by
  have hdiv : ((x + 7 * i + j - x) / 7).toNat = i := by omega
  have hmod : ((x + 7 * i + j - x) % 7).toNat = j := by omega
  have hrow : (y + k - y).toNat = k := by omega
  rw [picture, hdiv, hmod, hrow, List.getD_eq_getElem _ _ hi]

section Row
variable {s : List Nat} {x y : Int} {wide backcolor : Nat} {pBuff : List (BitVec 8)}

theorem paints_guiRowText (hs : ∀ c ∈ s, 0x20 ≤ c ∧ c ≤ 0x7e) (hx : 0 ≤ x) (hy : 0 ≤ y) (hy' : y < guiYMax) :
    Paints (picture s x y (backcolor ≠ cWhitle)) (guiRowText defaultFont backcolor pBuff x y wide .left s) := by
  intro a ha
  have hs' : ∀ c ∈ s, c ≤ 0x7f := fun c hc => Nat.le_trans (hs c hc).2 (by decide)
  rw [mem_guiRowText hs' hx hy hy'] at ha
  obtain ⟨i, hi, -, hfont | ⟨j, z, hj, -, hz, -, rfl⟩⟩ := ha
  · rw [getFontASCII57_of_le (hs _ (List.getElem_mem hi)).1 (hs' _ (List.getElem_mem hi))] at hfont
    obtain ⟨j, -, rfl⟩ := List.mem_map.mp hfont
    exact .inl ⟨_, _, rfl⟩
  · refine .inr ⟨y + z, x + 7 * i + j, ?_⟩
    rw [lineBegins_left, picture_glyph hi (by omega),
      glyphColumn_bit (hs _ (List.getElem_mem hi)).1 (hs' _ (List.getElem_mem hi)) hj (by omega)]

/-- Every point of a character that ends within the line and on the screen is drawn. -/
theorem point_mem_guiRowText (hs : ∀ c ∈ s, 0x20 ≤ c ∧ c ≤ 0x7e) (hx : 0 ≤ x) (hy : 0 ≤ y) (hy' : y ≤ 57)
    {i j k : Nat} (hi : i < s.length) (hj : j < 5) (hk : k < 7) (hfit : x + 7 * i + 7 ≤ (x + wide) % 2 ^ 16)
    (hright : x + 7 * i ≤ 120) :
    point (y + k) (x + 7 * i + j) (picture s x y (backcolor ≠ cWhitle) (x + 7 * i + j) (y + k)) ∈
      guiRowText defaultFont backcolor pBuff x y wide .left s := by
  have hs' : ∀ c ∈ s, c ≤ 0x7f := fun c hc => Nat.le_trans (hs c hc).2 (by decide)
  rw [mem_guiRowText hs' hx hy (by simp only [guiYMax]; omega), lineBegins_left]
  refine ⟨i, hi, hfit, .inr ⟨j, k, hj, by omega, hk, by omega, ?_⟩⟩
  rw [picture_glyph hi (by omega),
    glyphColumn_bit (hs _ (List.getElem_mem hi)).1 (hs' _ (List.getElem_mem hi)) hj (by omega)]

/-- No point is drawn off the characters. -/
theorem of_point_mem_guiRowText (hs : ∀ c ∈ s, 0x20 ≤ c ∧ c ≤ 0x7e) (hx : 0 ≤ x) (hy : 0 ≤ y) (hy' : y < guiYMax)
    {c r : Int} {set : Bool} (h : point r c set ∈ guiRowText defaultFont backcolor pBuff x y wide .left s) :
    ∃ i < s.length, ∃ j < 5, ∃ k < 7, c = x + 7 * (i : Nat) + (j : Nat) ∧ r = y + (k : Nat) := by
  have hs' : ∀ c ∈ s, c ≤ 0x7f := fun c hc => Nat.le_trans (hs c hc).2 (by decide)
  rw [mem_guiRowText hs' hx hy hy', lineBegins_left] at h
  obtain ⟨i, hi, -, hfont | ⟨j, k, hj, -, hk, -, hpoint⟩⟩ := h
  · rw [getFontASCII57_of_le (hs _ (List.getElem_mem hi)).1 (hs' _ (List.getElem_mem hi))] at hfont
    obtain ⟨j, -, hpoint⟩ := List.mem_map.mp hfont
    cases hpoint
  · obtain ⟨hr, hc⟩ := point_inj hpoint
    exact ⟨i, hi, j, hj, k, hk, hc, hr⟩
end Row

/-- **A text is rendered pixel for pixel**, and nothing else changes. -/
theorem text_is_rendered (m : Buffer) (pBuff : List (BitVec 8)) (backcolor : Nat) (x y : Int) (w : Nat) (s : List Nat)
    (hs : ∀ c ∈ s, 0x20 ≤ c ∧ c ≤ 0x7e) (hx : 0 ≤ x) (hy : 0 ≤ y) (hy' : y ≤ 57) (hw : w ≤ 255)
    (hfit : 7 * s.length ≤ w) (hright : x + 7 * ((s.length : Int) - 1) ≤ 120) :
    (∀ i, ∀ hi : i < s.length, ∀ j < 5, ∀ k < 7,
      pixel (draw m (guiRowText defaultFont backcolor pBuff x y w .left s)) (x + 7 * i + (j : Nat)) (y + (k : Nat)) =
        ((ascii57At (s[i] - 0x20) j).getLsbD k != decide (backcolor ≠ cWhitle))) ∧
    ∀ c r, (¬ ∃ i < s.length, ∃ j < 5, ∃ k < 7, c = x + 7 * (i : Nat) + (j : Nat) ∧ r = y + (k : Nat)) →
      pixel (draw m (guiRowText defaultFont backcolor pBuff x y w .left s)) c r = pixel m c r := by
  have hscreen : y < guiYMax := by simp only [guiYMax]; omega
  have hpaints : Paints (picture s x y (backcolor ≠ cWhitle))
      (guiRowText defaultFont backcolor pBuff x y w .left s) := paints_guiRowText hs hx hy hscreen
  constructor
  · intro i hi j hj k hk
    rw [← picture_glyph hi (by omega)]
    exact pixel_draw_of_mem hpaints (point_mem_guiRowText hs hx hy hy' hi hj hk (by omega) (by omega))
  · intro c r hoff
    exact pixel_draw_of_not_mem hpaints fun h => hoff (of_point_mem_guiRowText hs hx hy hscreen h)

/-- The second letter of a text at the edge of the screen. -/
theorem text_is_rendered_ok :
    pixel (draw (fun _ _ => 0xff) (guiRowText defaultFont cBlack [] 113 30 14 .left [0x4f, 0x4b])) 122 33 =
      ((ascii57At 0x2b 2).getLsbD 3 != true) :=
  (text_is_rendered (fun _ _ => 0xff) [] cBlack 113 30 14 [0x4f, 0x4b] (by decide) (by decide) (by decide) (by decide)
    (by decide) (by decide) (by decide)).1 1 (by decide) 2 (by decide) 3 (by decide)

end Backwash.Gui
