import Mathlib.Data.BitVec

/-! The picture in memory: lcdDriverPort.c.

`x_to_page` has a byte for each column and page, with the rows of the page in its bits.
What drawing does to memory is kept as the list of its accesses, whether they lie within
the arrays or not. -/
namespace Backwash.Gui

/-- `GUIXMAX`. -/
def guiXMax : Int := 128

/-- `GUIYMAX`. -/
def guiYMax : Int := 64

/-- `CWHITLE`. -/
def cWhitle : Nat := 0

/-- `CBLACK`. -/
def cBlack : Nat := 1

/-- An access to `ASCII_5_7[o][j]`, or to `x_to_page[a][b]` to set or to clear a bit. -/
inductive Access where
  | font (o j : Nat)
  | page (a b : Int) (bit : Nat) (set : Bool)
  deriving DecidableEq, Repr

/-- The point in row `x` and column `y`. -/
def point (x y : Int) (set : Bool) : Access := .page y (x / 8) (x % 8).toNat set

/-- `GuiFlipPoint`, which takes the row first. -/
def guiFlipPoint (x y : Int) (color : Nat) : Access := point x y (color != cWhitle)

/-- `x_to_page`. -/
abbrev Buffer := Int → Int → BitVec 8

def Access.apply : Access → Buffer → Buffer
  | .font _ _, m => m
  | .page a b bit set, m => fun a' b' =>
    if a' = a ∧ b' = b then if set then m a b ||| 1#8 <<< bit else m a b &&& ~~~(1#8 <<< bit) else m a' b'

def draw (m : Buffer) (accesses : List Access) : Buffer := accesses.foldl (fun m x => x.apply m) m

/-- The pixel in column `c` and row `r`. -/
def pixel (m : Buffer) (c r : Int) : Bool := (m c (r / 8)).getLsbD (r % 8).toNat

theorem getLsbD_one_shift {i k : Nat} (hk : k < 8) : (1#8 <<< k).getLsbD i = decide (i = k) := by
  rw [BitVec.getLsbD_shiftLeft, BitVec.getLsbD_one]
  by_cases h : i = k
  · subst h
    simp [hk]
  · have hne : ¬ (i < 8 ∧ ¬ i < k ∧ i - k = 0) := by omega
    simpa [h] using hne

theorem apply_page (m : Buffer) (a b : Int) (bit : Nat) (set : Bool) (a' b' : Int) :
    (Access.page a b bit set).apply m a' b' =
      if a' = a ∧ b' = b then if set then m a b ||| 1#8 <<< bit else m a b &&& ~~~(1#8 <<< bit) else m a' b' := rfl

/-- A point changes its own pixel and no other. -/
theorem pixel_point (m : Buffer) (x y : Int) (set : Bool) (c r : Int) :
    pixel ((point x y set).apply m) c r = if c = y ∧ r = x then set else pixel m c r := by
  have hr : (r % 8).toNat < 8 := by omega
  have hx : (x % 8).toNat < 8 := by omega
  rw [pixel, point, apply_page]
  by_cases hcell : c = y ∧ r / 8 = x / 8
  · have hbit : c = y ∧ r = x ↔ (r % 8).toNat = (x % 8).toNat := by omega
    have hsame : m y (x / 8) = m c (r / 8) := by rw [hcell.1, hcell.2]
    rw [if_pos hcell, hsame, if_congr hbit rfl rfl, pixel]
    by_cases hb : (r % 8).toNat = (x % 8).toNat
    · cases set <;> simp [hb, getLsbD_one_shift hx]
    · have hne : (1#8 <<< (x % 8).toNat).getLsbD (r % 8).toNat = false := by
        rw [getLsbD_one_shift hx, decide_eq_false hb]
      rw [if_neg hb]
      cases set
      · rw [if_neg Bool.false_ne_true, BitVec.getLsbD_and, BitVec.getLsbD_not, hne, decide_eq_true hr]
        simp only [Bool.not_false, Bool.and_self, Bool.and_true]
      · rw [if_pos rfl, BitVec.getLsbD_or, hne, Bool.or_false]
  · have hne : ¬ (c = y ∧ r = x) := fun h => hcell ⟨h.1, by rw [h.2]⟩
    rw [if_neg hcell, if_neg hne, pixel]

theorem point_inj {x y x' y' : Int} {set set' : Bool} (h : point x y set = point x' y' set') : x = x' ∧ y = y' := by
  simp only [point, Access.page.injEq] at h
  omega

/-! ### Points of a picture -/

/-- The accesses are to the font, or points of the picture `f`. -/
def Paints (f : Int → Int → Bool) (accesses : List Access) : Prop :=
  ∀ a ∈ accesses, (∃ o j, a = .font o j) ∨ ∃ x y, a = point x y (f y x)

variable {f : Int → Int → Bool} {a : Access} {accesses : List Access} {m : Buffer} {c r : Int}

theorem Paints.tail (h : Paints f (a :: accesses)) : Paints f accesses := fun b hb => h b (List.mem_cons_of_mem _ hb)

/-- Where no point is drawn the picture stays. -/
theorem pixel_draw_of_not_mem (h : Paints f accesses) (hp : point r c (f c r) ∉ accesses) :
    pixel (draw m accesses) c r = pixel m c r := by
  induction accesses generalizing m with
  | nil => rfl
  | cons a rest ih =>
    have hrest : pixel (draw (a.apply m) rest) c r = pixel (a.apply m) c r :=
      ih h.tail fun hc => hp (List.mem_cons_of_mem _ hc)
    refine hrest.trans ?_
    rcases h a List.mem_cons_self with ⟨o, j, rfl⟩ | ⟨x, y, rfl⟩
    · rfl
    · rw [pixel_point, if_neg]
      rintro ⟨rfl, rfl⟩
      exact hp List.mem_cons_self

/-- Where a point is drawn there is the picture. -/
theorem pixel_draw_of_mem (h : Paints f accesses) (hp : point r c (f c r) ∈ accesses) :
    pixel (draw m accesses) c r = f c r := by
  induction accesses generalizing m with
  | nil => cases hp
  | cons a rest ih =>
    show pixel (draw (a.apply m) rest) c r = f c r
    by_cases hmem : point r c (f c r) ∈ rest
    · exact ih h.tail hmem
    · obtain rfl := (List.mem_cons.mp hp).resolve_right hmem
      rw [pixel_draw_of_not_mem h.tail hmem, pixel_point, if_pos ⟨rfl, rfl⟩]

end Backwash.Gui
