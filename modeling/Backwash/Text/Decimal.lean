import Mathlib.Algebra.Group.Int.Defs
import Mathlib.Data.List.TakeWhile

/-! Numbers as C writes and reads them.

`%ld` prints a `long` in decimal, `snprintf` cuts what does not fit, `atol` skips
blanks, takes an optional sign and reads digits up to the first other character.
A character of C is the character with its code. -/
namespace Backwash.Text

/-- `%ld`. -/
def formatLong (n : Int) : List Char :=
  if n < 0 then '-' :: Nat.toDigits 10 n.natAbs else Nat.toDigits 10 n.natAbs

/-- `%0wd`: zeros between the sign and the digits, up to `w` characters. -/
def formatPadded (w : Nat) (n : Int) : List Char :=
  if n < 0 then '-' :: (Nat.toDigits 10 n.natAbs).leftpad (w - 1) '0' else (Nat.toDigits 10 n.natAbs).leftpad w '0'

/-- What `sprintf` puts before the terminating zero, for a format with `%0wd`. -/
def sprintf : List Char → Int → List Char
  | '%' :: '0' :: w :: 'd' :: rest, n => formatPadded (w.toNat - '0'.toNat) n ++ sprintf rest n
  | c :: rest, n => c :: sprintf rest n
  | [], _ => []

/-- `snprintf(s, size, …)`: the terminating zero counts. -/
def snprintf (size : Nat) (text : List Char) : List Char := text.take (size - 1)

/-- `isspace`: the blank, and the controls from tab to carriage return. -/
def isSpace (c : Char) : Bool := c.toNat == 32 || (9 ≤ c.toNat && c.toNat ≤ 13)

/-- The number that the digits at the head of a text spell. -/
def leadingDigits (s : List Char) : Nat := Nat.ofDigitChars 10 (s.takeWhile Char.isDigit) 0

def atol (s : List Char) : Int :=
  match s.dropWhile isSpace with
  | '-' :: digits => -(leadingDigits digits : Int)
  | '+' :: digits => leadingDigits digits
  | digits => leadingDigits digits

/-- `atol` with a `long` of 32 bits, as `strtol` does it: what is out of range becomes the
nearest end. -/
def atolLong (s : List Char) : BitVec 32 := BitVec.ofInt 32 (max (-2 ^ 31) (min (2 ^ 31 - 1) (atol s)))

theorem isDigit_toDigits {n : Nat} {c : Char} (h : c ∈ Nat.toDigits 10 n) : c.isDigit = true :=
  Nat.isDigit_of_mem_toDigits (by decide) (by decide) h

theorem leadingDigits_toDigits (n : Nat) : leadingDigits (Nat.toDigits 10 n) = n := by
  unfold leadingDigits
  rw [List.takeWhile_eq_self_iff.mpr fun _ => isDigit_toDigits]
  exact Nat.ofDigitChars_ten_toDigits

theorem isSpace_of_isDigit {c : Char} (h : c.isDigit = true) : isSpace c = false := by
  have hc : 48 ≤ c.toNat ∧ c.toNat ≤ 57 := Char.isDigit_iff_toNat.mp h
  simp only [isSpace, Bool.or_eq_false_iff, beq_eq_false_iff_ne, Bool.and_eq_false_iff, decide_eq_false_iff_not]
  omega

/-- A text that begins with a digit has neither blank nor sign. -/
theorem atol_digits {s : List Char} {c : Char} {rest : List Char} (hs : s = c :: rest) (hc : c.isDigit = true) :
    atol s = leadingDigits s := by
  subst hs
  have hspace : isSpace c = false := isSpace_of_isDigit hc
  simp only [atol, List.dropWhile_cons, hspace, Bool.false_eq_true, if_false]
  split
  · next heq => cases heq; cases hc
  · next heq => cases heq; cases hc
  · rfl

/-- What `%ld` prints, `atol` reads. -/
theorem atol_formatLong (n : Int) : atol (formatLong n) = n := by
  unfold formatLong
  split
  · have hminus : atol ('-' :: Nat.toDigits 10 n.natAbs) = -(leadingDigits (Nat.toDigits 10 n.natAbs) : Int) := rfl
    rw [hminus, leadingDigits_toDigits]
    omega
  · cases hd : Nat.toDigits 10 n.natAbs with
    | nil => exact absurd hd Nat.toDigits_ne_nil
    | cons c rest =>
      have hc : c.isDigit = true := isDigit_toDigits (n := n.natAbs) (by rw [hd]; exact List.mem_cons_self ..)
      rw [atol_digits rfl hc, ← hd, leadingDigits_toDigits]
      omega

/-- A `long` of 32 bits takes at most eleven characters. -/
theorem length_formatLong (v : BitVec 32) : (formatLong v.toInt).length ≤ 11 := by
  have hlo := BitVec.le_toInt v
  have hhi := BitVec.toInt_lt (x := v)
  have hdigits : (Nat.toDigits 10 v.toInt.natAbs).length ≤ 10 :=
    (Nat.length_toDigits_le_iff (by decide) (by decide)).mpr (by omega)
  unfold formatLong
  split
  · rw [List.length_cons]
    omega
  · omega

theorem length_formatPadded {w : Nat} (hw : 0 < w) (n : Int) :
    (formatPadded w n).length = max w (formatLong n).length := by
  unfold formatPadded formatLong
  split
  · rw [List.length_cons, List.length_cons, List.length_leftpad]
    omega
  · rw [List.length_leftpad]

/-- What is printed is in range when it is read back. -/
theorem atolLong_formatLong (v : BitVec 32) : atolLong (formatLong v.toInt) = v := by
  have hlo := BitVec.le_toInt v
  have hhi := BitVec.toInt_lt (x := v)
  have hin : max (-2 ^ 31) (min (2 ^ 31 - 1) v.toInt) = v.toInt := by omega
  rw [atolLong, atol_formatLong, hin, BitVec.ofInt_toInt]

/-- A 32-bit value printed into 32 characters and read back is the value. -/
theorem atol_snprintf (v : BitVec 32) : BitVec.ofInt 32 (atol (snprintf 32 (formatLong v.toInt))) = v := by
  have hlength := length_formatLong v
  rw [snprintf, List.take_of_length_le (by omega), atol_formatLong, BitVec.ofInt_toInt]

end Backwash.Text
