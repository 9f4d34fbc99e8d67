import Mathlib.Data.List.GetD
import Backwash.Gui.Canvas

/-! Text: lkdGuiFont.c over GuiBitMap, with the font of defaultFontInit.

A glyph has its columns in bytes. `BitExchange` turns a byte round for `GuiBitMap`, which
takes the column for a row of its bitmap, and `GuiFlipPoint` turns the picture back. -/
namespace Backwash.Gui

/-! ### The font -/

/-- `ASCII_5_7`. -/
def ascii57 : List (List (BitVec 8)) :=
  [[0x00, 0x00, 0x00, 0x00, 0x00], [0x00, 0x00, 0x4f, 0x00, 0x00], [0x00, 0x07, 0x00, 0x07, 0x00],
   [0x14, 0x7f, 0x14, 0x7f, 0x14], [0x24, 0x2a, 0x7f, 0x2a, 0x12], [0x23, 0x13, 0x08, 0x64, 0x62],
   [0x36, 0x49, 0x55, 0x22, 0x50], [0x00, 0x05, 0x07, 0x00, 0x00], [0x00, 0x1c, 0x22, 0x41, 0x00],
   [0x00, 0x41, 0x22, 0x1c, 0x00], [0x14, 0x08, 0x3e, 0x08, 0x14], [0x08, 0x08, 0x3e, 0x08, 0x08],
   [0x00, 0x50, 0x30, 0x00, 0x00], [0x08, 0x08, 0x08, 0x08, 0x08], [0x00, 0x60, 0x60, 0x00, 0x00],
   [0x20, 0x10, 0x08, 0x04, 0x02], [0x3e, 0x51, 0x49, 0x45, 0x3e], [0x00, 0x42, 0x7f, 0x40, 0x00],
   [0x42, 0x61, 0x51, 0x49, 0x46], [0x21, 0x41, 0x45, 0x4b, 0x31], [0x18, 0x14, 0x12, 0x7f, 0x10],
   [0x27, 0x45, 0x45, 0x45, 0x39], [0x3c, 0x4a, 0x49, 0x49, 0x30], [0x01, 0x71, 0x09, 0x05, 0x03],
   [0x36, 0x49, 0x49, 0x49, 0x36], [0x06, 0x49, 0x49, 0x29, 0x1e], [0x00, 0x36, 0x36, 0x00, 0x00],
   [0x00, 0x56, 0x36, 0x00, 0x00], [0x08, 0x14, 0x22, 0x41, 0x00], [0x14, 0x14, 0x14, 0x14, 0x14],
   [0x00, 0x41, 0x22, 0x14, 0x08], [0x02, 0x01, 0x51, 0x09, 0x06], [0x32, 0x49, 0x79, 0x41, 0x3e],
   [0x7e, 0x11, 0x11, 0x11, 0x7e], [0x7f, 0x49, 0x49, 0x49, 0x36], [0x3e, 0x41, 0x41, 0x41, 0x22],
   [0x7f, 0x41, 0x41, 0x22, 0x1c], [0x7f, 0x49, 0x49, 0x49, 0x41], [0x7f, 0x09, 0x09, 0x09, 0x01],
   [0x3e, 0x41, 0x49, 0x49, 0x7a], [0x7f, 0x08, 0x08, 0x08, 0x7f], [0x00, 0x41, 0x7f, 0x41, 0x00],
   [0x20, 0x40, 0x41, 0x3f, 0x01], [0x7f, 0x08, 0x14, 0x22, 0x41], [0x7f, 0x40, 0x40, 0x40, 0x40],
   [0x7f, 0x02, 0x0c, 0x02, 0x7f], [0x7f, 0x04, 0x08, 0x10, 0x7f], [0x3e, 0x41, 0x41, 0x41, 0x3e],
   [0x7f, 0x09, 0x09, 0x09, 0x06], [0x3e, 0x41, 0x51, 0x21, 0x5e], [0x7f, 0x09, 0x19, 0x29, 0x46],
   [0x46, 0x49, 0x49, 0x49, 0x31], [0x01, 0x01, 0x7f, 0x01, 0x01], [0x3f, 0x40, 0x40, 0x40, 0x3f],
   [0x1f, 0x20, 0x40, 0x20, 0x1f], [0x3f, 0x40, 0x38, 0x40, 0x3f], [0x63, 0x14, 0x08, 0x14, 0x63],
   [0x07, 0x08, 0x70, 0x08, 0x07], [0x61, 0x51, 0x49, 0x45, 0x43], [0x00, 0x7f, 0x41, 0x41, 0x00],
   [0x02, 0x04, 0x08, 0x10, 0x20], [0x00, 0x41, 0x41, 0x7f, 0x00], [0x04, 0x02, 0x01, 0x02, 0x04],
   [0x40, 0x40, 0x40, 0x40, 0x40], [0x01, 0x02, 0x04, 0x00, 0x00], [0x20, 0x54, 0x54, 0x54, 0x78],
   [0x7f, 0x48, 0x48, 0x48, 0x30], [0x38, 0x44, 0x44, 0x44, 0x44], [0x30, 0x48, 0x48, 0x48, 0x7f],
   [0x38, 0x54, 0x54, 0x54, 0x58], [0x00, 0x08, 0x7e, 0x09, 0x02], [0x48, 0x54, 0x54, 0x54, 0x3c],
   [0x7f, 0x08, 0x08, 0x08, 0x70], [0x00, 0x00, 0x7a, 0x00, 0x00], [0x20, 0x40, 0x40, 0x3d, 0x00],
   [0x7f, 0x20, 0x28, 0x44, 0x00], [0x00, 0x41, 0x7f, 0x40, 0x00], [0x7c, 0x04, 0x38, 0x04, 0x7c],
   [0x7c, 0x08, 0x04, 0x04, 0x78], [0x38, 0x44, 0x44, 0x44, 0x38], [0x7c, 0x14, 0x14, 0x14, 0x08],
   [0x08, 0x14, 0x14, 0x14, 0x7c], [0x7c, 0x08, 0x04, 0x04, 0x08], [0x48, 0x54, 0x54, 0x54, 0x24],
   [0x04, 0x04, 0x3f, 0x44, 0x24], [0x3c, 0x40, 0x40, 0x40, 0x3c], [0x1c, 0x20, 0x40, 0x20, 0x1c],
   [0x3c, 0x40, 0x30, 0x40, 0x3c], [0x44, 0x28, 0x10, 0x28, 0x44], [0x04, 0x48, 0x30, 0x08, 0x04],
   [0x44, 0x64, 0x54, 0x4c, 0x44], [0x04, 0x3e, 0x3f, 0x3e, 0x04], [0x00, 0x00, 0x77, 0x00, 0x00],
   [0x08, 0x1f, 0x3f, 0x1f, 0x08], [0x04, 0x02, 0x02, 0x02, 0x01]]

/-- `ASCII_5_7[o][j]`. What lies behind the array is not known, and no result depends on it. -/
def ascii57At (o j : Nat) : BitVec 8 := (ascii57.getD o []).getD j 0

/-- `GetBit[z]`. -/
def getBit (z : Nat) : BitVec 8 := [0x80, 0x40, 0x20, 0x10, 0x08, 0x04, 0x02, 0x01].getD z 0

def bitExchange (data : BitVec 8) : BitVec 8 :=
  (List.range 8).foldl (fun temp i => temp ||| if data &&& getBit i ≠ 0 then getBit (7 - i) else 0) 0

/-- `GetFontASCII_5_7`: its accesses, and what it leaves in `pBuff`. -/
def getFontASCII57 (code1 : Nat) (pBuff : List (BitVec 8)) : List Access × List (BitVec 8) :=
  let offset := (code1 + 2 ^ 16 - 32) % 2 ^ 16
  if offset > 95 then ([], List.replicate 5 0 ++ pBuff.drop 5)
  else
    ((List.range 5).map (.font offset),
      (List.range 5).map (fun i => bitExchange (ascii57At offset i)) ++ pBuff.drop 5)

structure LkdFont where
  shigh : Nat
  swide : Nat
  dhigh : Nat
  dwide : Nat
  getSfont : Nat → List (BitVec 8) → List Access × List (BitVec 8)
  getDfont : Nat → Nat → List (BitVec 8) → List Access × List (BitVec 8)

/-- The font of `defaultFontInit`, whose `GetDfontData` does nothing. -/
def defaultFont : LkdFont where
  shigh := 5
  swide := 7
  dhigh := 12
  dwide := 12
  getSfont := getFontASCII57
  getDfont := fun _ _ pBuff => ([], pBuff)

/-! ### Drawing -/

def guiBitMap (bitMap : List (BitVec 8)) (x0 y0 : Int) (xlen ylen flag : Nat) : List Access :=
  if x0 < 0 ∨ y0 < 0 ∨ x0 ≥ guiXMax ∨ y0 ≥ guiYMax then []
  else
    let eachRow := if xlen % 8 ≠ 0 then xlen / 8 + 1 else xlen / 8
    let xlen := if x0 + xlen ≥ guiXMax then (guiXMax - x0 - 1).toNat else xlen
    let ylen := if y0 + ylen ≥ guiYMax then (guiYMax - y0 - 1).toNat else ylen
    (List.range ylen).flatMap fun j => (List.range' 0 ((xlen + 7) / 8) 8).flatMap fun i =>
      (List.range (if i + 8 ≥ xlen then xlen - i else 8)).map fun z =>
        let colour := if bitMap.getD (eachRow * j + i / 8) 0 &&& getBit z ≠ 0 then cBlack else cWhitle
        let colour := if flag ≠ 0 then if colour ≠ 0 then cWhitle else cBlack else colour
        guiFlipPoint (y0 + i + z) (x0 + j) colour

structure FontTextInfo where
  x : Int
  y : Int
  wide : Nat
  high : Nat
  beginOffset : Nat
  wInterval : Nat
  hInterval : Nat
  flag : Nat

/-- The loop of `GuiText` from column `tx` and line `y`, with `pZmBuff` as the glyph before
left it. -/
def guiTextFrom (font : LkdFont) (tInfo : FontTextInfo) (endx endy : Nat) :
    List (BitVec 8) → Int → Int → List Nat → List Access
  | _, _, _, [] => []
  | pZmBuff, tx, y, c :: rest =>
    let fontWide := if c > 0x7f then font.dwide else font.swide
    let wraps := tx + fontWide + tInfo.wInterval > endx
    let y := if wraps then y + (font.dhigh + tInfo.hInterval) else y
    let tx := if wraps then tInfo.x else tx
    if y + font.dhigh + tInfo.hInterval > endy then []
    else if c > 0x7f then
      match rest with
      | [] => []
      | c2 :: rest =>
        let got := font.getDfont c c2 pZmBuff
        got.1 ++ guiBitMap got.2 tx y font.dwide font.dhigh tInfo.flag ++
          guiTextFrom font tInfo endx endy got.2 (tx + (font.dwide + tInfo.wInterval)) y rest
    else
      let got := font.getSfont c pZmBuff
      got.1 ++ guiBitMap got.2 tx y font.swide font.shigh tInfo.flag ++
        guiTextFrom font tInfo endx endy got.2 (tx + (font.swide + tInfo.wInterval)) y rest

def guiText (font : LkdFont) (pZmBuff : List (BitVec 8)) (tInfo : FontTextInfo) (str : List Nat) : List Access :=
  let endx := ((tInfo.x + tInfo.wide) % 2 ^ 16).toNat
  let endy := ((tInfo.y + tInfo.high) % 2 ^ 16).toNat
  guiTextFrom font tInfo endx endy pZmBuff (tInfo.x + tInfo.beginOffset) tInfo.y str

def getTextPixLen (font : LkdFont) : Nat → List Nat → Nat
  | len, [] => len
  | len, c :: rest =>
    if c > 0x7f then
      match rest with
      | [] => (len + font.dwide) % 2 ^ 16
      | _ :: rest => getTextPixLen font ((len + font.dwide) % 2 ^ 16) rest
    else getTextPixLen font ((len + font.swide) % 2 ^ 16) rest

inductive FontFlag where
  | left
  | mid
  | right
  deriving DecidableEq, Repr

/-- `GuiRowText` with the background colour that `GuiGetbackcolor` returns. -/
def guiRowText (font : LkdFont) (backcolor : Nat) (pZmBuff : List (BitVec 8)) (x y : Int) (wide : Nat)
    (flag : FontFlag) (str : List Nat) : List Access :=
  let pixLen := getTextPixLen font 0 str
  guiText font pZmBuff
    { x, y, wide
      high := 12
      beginOffset :=
        if pixLen ≤ wide then
          match flag with
          | .mid => (wide - pixLen) / 2
          | .right => wide - pixLen
          | .left => 0
        else 0
      wInterval := 0
      hInterval := 0
      flag := if backcolor = cWhitle then 0 else 1 } str

/-! ### What is drawn for a character -/

/-- The column `j` of a glyph as `BitExchange` leaves it. -/
def glyphColumn (c j : Nat) : BitVec 8 := (getFontASCII57 c []).2.getD j 0

/-- The accesses for a character at column `tx`. -/
def Prints (c : Nat) (tx y : Int) (inverted : Bool) (a : Access) : Prop :=
  a ∈ (getFontASCII57 c []).1 ∨
    ∃ j z : Nat, j < 5 ∧ y + j < 63 ∧ z < 7 ∧ tx + z < 127 ∧
      a = point (y + z) (tx + j) (decide (glyphColumn c j &&& getBit z ≠ 0) != inverted)

theorem bitExchange_getBit :
    ∀ (data : BitVec 8) (z : Fin 8), decide (bitExchange data &&& getBit z ≠ 0) = data.getLsbD z := by
  decide +kernel

theorem getFontASCII57_of_le {c : Nat} (hc : 0x20 ≤ c) (hc' : c ≤ 0x7f) (pBuff : List (BitVec 8)) :
    getFontASCII57 c pBuff = ((List.range 5).map (.font (c - 32)),
      (List.range 5).map (fun i => bitExchange (ascii57At (c - 32) i)) ++ pBuff.drop 5) := by
  have hoffset : (c + 2 ^ 16 - 32) % 2 ^ 16 = c - 32 := by omega
  rw [getFontASCII57, hoffset, if_neg (by omega)]

theorem getFontASCII57_of_lt {c : Nat} (hc : c < 0x20) (pBuff : List (BitVec 8)) :
    getFontASCII57 c pBuff = ([], List.replicate 5 0 ++ pBuff.drop 5) := by
  rw [getFontASCII57, if_pos (by omega)]

/-- The glyph is the character's whatever the buffer held. -/
theorem getD_getFontASCII57 {c j : Nat} (hj : j < 5) (pBuff : List (BitVec 8)) :
    (getFontASCII57 c pBuff).2.getD j 0 = glyphColumn c j := by
  by_cases hc : (c + 2 ^ 16 - 32) % 2 ^ 16 > 95
  · simp only [glyphColumn, getFontASCII57, if_pos hc]
    rw [List.getD_append _ _ _ _ (by simpa using hj), List.getD_append _ _ _ _ (by simpa using hj)]
  · simp only [glyphColumn, getFontASCII57, if_neg hc]
    rw [List.getD_append _ _ _ _ (by simpa using hj), List.getD_append _ _ _ _ (by simpa using hj)]

theorem getFontASCII57_accesses (c : Nat) (pBuff : List (BitVec 8)) :
    (getFontASCII57 c pBuff).1 = (getFontASCII57 c []).1 := by
  by_cases hc : (c + 2 ^ 16 - 32) % 2 ^ 16 > 95
  · simp only [getFontASCII57, if_pos hc]
  · simp only [getFontASCII57, if_neg hc]

/-- The colour of a point, set where the bit of the map is, or where it is not. -/
theorem guiFlipPoint_colour (x y : Int) (lit : Prop) [Decidable lit] (flag : Nat) :
    guiFlipPoint x y (if flag ≠ 0 then if (if lit then cBlack else cWhitle) ≠ 0 then cWhitle else cBlack
      else if lit then cBlack else cWhitle) = point x y (decide lit != decide (flag ≠ 0)) := by
  by_cases hlit : lit <;> by_cases hflag : flag = 0 <;> simp [guiFlipPoint, hlit, hflag, cBlack, cWhitle]

/-- What the clipping leaves of a length: it takes off the last place before `max` as well. -/
theorem lt_clipped {max start : Int} (len n : Nat) (h : start < max) :
    (n < if start + len ≥ max then (max - start - 1).toNat else len) ↔ n < len ∧ start + n < max - 1 := by
  split <;> omega

/-- The walk over a glyph, whose rows are the columns of the character. -/
theorem mem_guiBitMap {bitMap : List (BitVec 8)} {x0 y0 : Int} {flag : Nat} {a : Access}
    (hx : 0 ≤ x0) (hy : 0 ≤ y0) :
    a ∈ guiBitMap bitMap x0 y0 7 5 flag ↔ ∃ j z : Nat, j < 5 ∧ y0 + j < 63 ∧ z < 7 ∧ x0 + z < 127 ∧
      a = point (y0 + z) (x0 + j) (decide (bitMap.getD j 0 &&& getBit z ≠ 0) != decide (flag ≠ 0)) := by
  unfold guiBitMap
  by_cases hout : x0 < 0 ∨ y0 < 0 ∨ x0 ≥ guiXMax ∨ y0 ≥ guiYMax
  · rw [if_pos hout]
    simp only [guiXMax, guiYMax] at hout
    constructor
    · rintro ⟨⟩
    · rintro ⟨j, z, -, hj, -, hz, -⟩
      omega
  · rw [if_neg hout]
    simp only [not_or, not_lt, not_le, ge_iff_le] at hout
    have hlen := fun n => lt_clipped 5 n hout.2.2.2
    have hwide := fun n => lt_clipped 7 n hout.2.2.1
    simp only [List.mem_flatMap, List.mem_map, List.mem_range, List.mem_range', guiFlipPoint_colour]
    generalize (if x0 + (7 : Nat) ≥ guiXMax then (guiXMax - x0 - 1).toNat else 7) = xlen at hwide ⊢
    generalize (if y0 + (5 : Nat) ≥ guiYMax then (guiYMax - y0 - 1).toNat else 5) = ylen at hlen ⊢
    simp only [guiXMax, guiYMax] at hwide hlen
    have hxlen : xlen ≤ 7 := Nat.le_of_not_lt fun h => absurd ((hwide 7).mp h).1 (Nat.lt_irrefl 7)
    constructor
    · rintro ⟨j, hj, i, ⟨t, ht, rfl⟩, z, hz, rfl⟩
      obtain rfl : t = 0 := by omega
      have hz : z < xlen := by split at hz <;> omega
      have hj := (hlen j).mp hj
      have hz := (hwide z).mp hz
      exact ⟨j, z, hj.1, by omega, hz.1, by omega, by simp⟩
    · rintro ⟨j, z, hj, hj', hz, hz', rfl⟩
      have hj := (hlen j).mpr ⟨hj, by omega⟩
      have hz := (hwide z).mpr ⟨hz, by omega⟩
      exact ⟨j, hj, 0, ⟨0, by omega, rfl⟩, z, by split <;> omega, by simp⟩

/-- The two steps of drawing a character. -/
theorem mem_prints {c : Nat} {pBuff : List (BitVec 8)} {tx y : Int} {flag : Nat} {a : Access}
    (hx : 0 ≤ tx) (hy : 0 ≤ y) :
    (a ∈ (getFontASCII57 c pBuff).1 ∨ a ∈ guiBitMap (getFontASCII57 c pBuff).2 tx y 7 5 flag) ↔
      Prints c tx y (flag ≠ 0) a := by
  rw [mem_guiBitMap hx hy, getFontASCII57_accesses]
  refine or_congr Iff.rfl (exists_congr fun j => exists_congr fun z => and_congr_right fun hj => ?_)
  rw [getD_getFontASCII57 hj]

section Line
variable {tInfo : FontTextInfo} {endx endy : Nat} {tx y : Int} {c : Nat} {rest : List Nat} {pBuff : List (BitVec 8)}
  {a : Access}

/-- A character that would end behind the line goes to the next line, for which `high` leaves
no room. -/
theorem guiTextFrom_wrap (hw : tInfo.wInterval = 0) (hend : y + 12 = endy) (hc : c ≤ 0x7f) (hwrap : tx + 7 > endx) :
    guiTextFrom defaultFont tInfo endx endy pBuff tx y (c :: rest) = [] := by
  have hc : ¬ c > 0x7f := Nat.not_lt.mpr hc
  have hwrap : tx + (7 : Nat) + (0 : Nat) > endx := by omega
  rw [guiTextFrom.eq_def]
  simp only [defaultFont, if_neg hc, hw, if_pos hwrap]
  exact if_pos (by omega)

theorem guiTextFrom_step (hw : tInfo.wInterval = 0) (hh : tInfo.hInterval = 0) (hend : y + 12 = endy)
    (hc : c ≤ 0x7f) (hfit : tx + 7 ≤ endx) :
    guiTextFrom defaultFont tInfo endx endy pBuff tx y (c :: rest) =
      (getFontASCII57 c pBuff).1 ++ guiBitMap (getFontASCII57 c pBuff).2 tx y 7 5 tInfo.flag ++
        guiTextFrom defaultFont tInfo endx endy (getFontASCII57 c pBuff).2 (tx + 7) y rest := by
  have hc : ¬ c > 0x7f := Nat.not_lt.mpr hc
  have hfit : ¬ tx + (7 : Nat) + (0 : Nat) > endx := by omega
  rw [guiTextFrom.eq_def]
  simp only [defaultFont, if_neg hc, hw, hh, if_neg hfit]
  exact if_neg (by omega)

/-- **What a line of single bytes draws**: every character that ends within the line. -/
theorem mem_guiTextFrom {str : List Nat} (hw : tInfo.wInterval = 0) (hh : tInfo.hInterval = 0)
    (hend : y + 12 = endy) (hs : ∀ c ∈ str, c ≤ 0x7f) (hx : 0 ≤ tx) (hy : 0 ≤ y) :
    a ∈ guiTextFrom defaultFont tInfo endx endy pBuff tx y str ↔
      ∃ i, ∃ h : i < str.length, tx + 7 * i + 7 ≤ endx ∧ Prints str[i] (tx + 7 * i) y (tInfo.flag ≠ 0) a := by
  induction str generalizing tx pBuff with
  | nil => simp [guiTextFrom]
  | cons c rest ih =>
    have hc : c ≤ 0x7f := hs c List.mem_cons_self
    have hrest : ∀ c ∈ rest, c ≤ 0x7f := fun c hc => hs c (List.mem_cons_of_mem _ hc)
    by_cases hfit : tx + 7 ≤ endx
    · rw [guiTextFrom_step hw hh hend hc hfit, List.mem_append, List.mem_append, ih hrest (by omega), mem_prints hx hy]
      constructor
      · rintro (h | ⟨i, hi, hfit, h⟩)
        · exact ⟨0, Nat.succ_pos _, by omega, by simpa using h⟩
        · have htx : tx + 7 + 7 * i = tx + 7 * (i + 1 : Nat) := by omega
          exact ⟨i + 1, Nat.succ_lt_succ hi, by omega, htx ▸ h⟩
      · rintro ⟨_ | i, hi, hfit, h⟩
        · exact .inl (by simpa using h)
        · have htx : tx + 7 * (i + 1 : Nat) = tx + 7 + 7 * i := by omega
          exact .inr ⟨i, Nat.lt_of_succ_lt_succ hi, by omega, htx ▸ h⟩
    · rw [guiTextFrom_wrap hw hend hc (by omega)]
      constructor
      · rintro ⟨⟩
      · rintro ⟨i, -, hi, -⟩
        omega
end Line

/-! ### A row of text -/

theorem getTextPixLen_single {str : List Nat} (hs : ∀ c ∈ str, c ≤ 0x7f) (len : Nat) (hlen : len < 2 ^ 16) :
    getTextPixLen defaultFont len str = (len + 7 * str.length) % 2 ^ 16 := by
  induction str generalizing len with
  | nil => exact (Nat.mod_eq_of_lt hlen).symm
  | cons c rest ih =>
    have hc : ¬ c > 0x7f := Nat.not_lt.mpr (hs c List.mem_cons_self)
    rw [getTextPixLen.eq_def]
    simp only [if_neg hc]
    rw [ih (fun c hc => hs c (List.mem_cons_of_mem _ hc)) _ (Nat.mod_lt _ (by decide)), List.length_cons]
    simp only [defaultFont]
    omega

/-- The column at which `n` characters begin. -/
def lineBegins (x : Int) (wide : Nat) (flag : FontFlag) (n : Nat) : Int :=
  x + if 7 * n % 2 ^ 16 ≤ wide then
    match flag with
    | .left => 0
    | .mid => (wide - 7 * n % 2 ^ 16) / 2
    | .right => wide - 7 * n % 2 ^ 16
  else 0

theorem le_lineBegins (x : Int) (wide : Nat) (flag : FontFlag) (n : Nat) : x ≤ lineBegins x wide flag n := by
  unfold lineBegins
  split
  · cases flag <;> simp only <;> omega
  · omega

/-- **What a row of text draws.** -/
theorem mem_guiRowText {str : List Nat} (hs : ∀ c ∈ str, c ≤ 0x7f) {x y : Int} (hx : 0 ≤ x) (hy : 0 ≤ y)
    (hy' : y < guiYMax) (backcolor : Nat) (pBuff : List (BitVec 8)) (wide : Nat) (flag : FontFlag) (a : Access) :
    a ∈ guiRowText defaultFont backcolor pBuff x y wide flag str ↔
      ∃ i, ∃ h : i < str.length, lineBegins x wide flag str.length + 7 * i + 7 ≤ (x + wide) % 2 ^ 16 ∧
        Prints str[i] (lineBegins x wide flag str.length + 7 * i) y (backcolor ≠ cWhitle) a := by
  have hpix : getTextPixLen defaultFont 0 str = 7 * str.length % 2 ^ 16 := by
    rw [getTextPixLen_single hs 0 (by decide), Nat.zero_add]
  have hbegin : x + ((if 7 * str.length % 2 ^ 16 ≤ wide then
      match flag with
      | .mid => (wide - 7 * str.length % 2 ^ 16) / 2
      | .right => wide - 7 * str.length % 2 ^ 16
      | .left => 0
    else 0 : Nat) : Int) = lineBegins x wide flag str.length := by
    unfold lineBegins
    split
    · cases flag <;> simp only <;> omega
    · rfl
  have hinverted : decide ((if backcolor = cWhitle then 0 else 1) ≠ 0) = decide (backcolor ≠ cWhitle) := by
    by_cases h : backcolor = cWhitle <;> simp [h]
  have hendx : (((x + wide) % 2 ^ 16).toNat : Int) = (x + wide) % 2 ^ 16 := by omega
  have hendy : y + 12 = (((y + (12 : Nat)) % 2 ^ 16).toNat : Int) := by
    simp only [guiYMax] at hy'
    omega
  have hbegins := le_lineBegins x wide flag str.length
  simp only [guiRowText, guiText, hpix, hbegin]
  rw [mem_guiTextFrom rfl rfl hendy hs (by omega) hy, hendx]
  simp only [hinverted]

end Backwash.Gui
