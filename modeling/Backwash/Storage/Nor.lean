import Mathlib.Data.List.Basic
import Mathlib.Data.BitVec
import Mathlib.Logic.Function.Basic

/-! A NOR flash.

A chip is what its addresses hold. Erasing a range sets every bit of it, programming a byte
can only clear bits. A range that an operation does not reach reads as before, and what is
programmed over erased bytes is read back as it was programmed. A power failure leaves the
bytes of a write programmed up to some point. -/
namespace Backwash.Storage

abbrev Byte := BitVec 8

@[ext] structure Flash where
  get : Nat → Byte

instance : CoeFun Flash fun _ => Nat → Byte := ⟨Flash.get⟩

namespace Flash

/-- The `n` bytes from `a` on. -/
def read (f : Flash) (a : Nat) : Nat → List Byte
  | 0 => []
  | n + 1 => f a :: read f (a + 1) n

/-- Programming a byte clears bits of it. -/
def clear (f : Flash) (a : Nat) (b : Byte) : Flash := ⟨Function.update f a (f a &&& b)⟩

def program (f : Flash) (a : Nat) : List Byte → Flash
  | [] => f
  | b :: bs => program (f.clear a b) (a + 1) bs

/-- The chip after each byte of a write. -/
def passed (f : Flash) (a : Nat) : List Byte → List Flash
  | [] => []
  | b :: bs => f.clear a b :: passed (f.clear a b) (a + 1) bs

def erase (f : Flash) (a n : Nat) : Flash := ⟨fun x => if a ≤ x ∧ x < a + n then 0xFF else f x⟩

/-- Erased from `a` up to `b`. -/
def Blank (f : Flash) (a b : Nat) : Prop := ∀ x, a ≤ x → x < b → f x = 0xFF

/-- The bytes from `a` on are `bs`. -/
def Holds (f : Flash) (a : Nat) (bs : List Byte) : Prop := f.read a bs.length = bs

/-- The two chips agree from `a` up to `b`. -/
def Same (f g : Flash) (a b : Nat) : Prop := ∀ x, a ≤ x → x < b → f x = g x

variable {f g h : Flash} {a b c n : Nat} {bs cs : List Byte}

/-! ### Reading -/

@[simp] theorem length_read (f : Flash) (a n : Nat) : (f.read a n).length = n := by
  induction n generalizing a with
  | zero => rfl
  | succ n ih => simp [read, ih]

theorem read_add (f : Flash) (a m n : Nat) : f.read a (m + n) = f.read a m ++ f.read (a + m) n := by
  induction m generalizing a with
  | zero => simp [read]
  | succ m ih =>
    rw [Nat.succ_add, read, read, ih, List.cons_append, Nat.add_assoc, Nat.add_comm 1 m]

@[simp] theorem getElem_read (f : Flash) (a n i : Nat) (hi : i < (f.read a n).length) : (f.read a n)[i] = f (a + i) := by
  induction n generalizing a i with
  | zero => simp [read] at hi
  | succ n ih =>
    cases i with
    | zero => rfl
    | succ i =>
      simp only [read, List.getElem_cons_succ]
      rw [ih, Nat.add_assoc, Nat.add_comm 1 i]

theorem read_congr (h : f.Same g a (a + n)) : f.read a n = g.read a n := by
  refine List.ext_getElem (by simp) fun i hi _ => ?_
  rw [getElem_read, getElem_read]
  exact h _ (Nat.le_add_right a i) (by simpa using hi)

theorem take_read (f : Flash) (a : Nat) {m n : Nat} (h : m ≤ n) : (f.read a n).take m = f.read a m := by
  obtain ⟨k, rfl⟩ := Nat.exists_eq_add_of_le h
  rw [read_add, List.take_append_of_le_length (by simp), List.take_of_length_le (by simp)]

theorem drop_read (f : Flash) (a : Nat) {m n : Nat} (h : m ≤ n) : (f.read a n).drop m = f.read (a + m) (n - m) := by
  obtain ⟨k, rfl⟩ := Nat.exists_eq_add_of_le h
  rw [read_add, List.drop_append_of_le_length (by simp), List.drop_of_length_le (by simp), Nat.add_sub_cancel_left]
  rfl

/-! ### What an address range holds -/

theorem Holds.get (h : f.Holds a bs) {i : Nat} (hi : i < bs.length) : f (a + i) = bs[i] := by
  have hi' : i < (f.read a bs.length).length := by simpa
  have hread : (f.read a bs.length)[i] = bs[i] := by
    congr 1
  rw [← hread, getElem_read]

theorem holds_of_get (h : ∀ i (hi : i < bs.length), f (a + i) = bs[i]) : f.Holds a bs := by
  refine List.ext_getElem (by simp) fun i hi hi' => ?_
  rw [getElem_read]
  exact h i hi'

theorem holds_append : f.Holds a (bs ++ cs) ↔ f.Holds a bs ∧ f.Holds (a + bs.length) cs := by
  rw [Holds, List.length_append, read_add]
  refine ⟨fun h => List.append_inj h (by simp), fun ⟨h₁, h₂⟩ => ?_⟩
  rw [h₁, h₂]

theorem holds_cons {x : Byte} : f.Holds a (x :: bs) ↔ f a = x ∧ f.Holds (a + 1) bs := by
  simp [Holds, read]

@[simp] theorem holds_nil (f : Flash) (a : Nat) : f.Holds a [] := rfl

theorem Holds.read_eq (h : f.Holds a bs) (hn : n = bs.length) : f.read a n = bs := hn ▸ h

theorem Holds.congr (h : f.Holds a bs) (hs : f.Same g a (a + bs.length)) : g.Holds a bs :=
  (read_congr hs).symm.trans h

theorem Blank.mono (h : f.Blank a b) {a' b' : Nat} (ha : a ≤ a') (hb : b' ≤ b) : f.Blank a' b' :=
  fun x hx hx' => h x (by omega) (by omega)

theorem Blank.congr (h : f.Blank a b) (hs : f.Same g a b) : g.Blank a b := fun x hx hx' =>
  (hs x hx hx').symm.trans (h x hx hx')

theorem Same.mono (h : f.Same g a b) {a' b' : Nat} (ha : a ≤ a') (hb : b' ≤ b) : f.Same g a' b' :=
  fun x hx hx' => h x (by omega) (by omega)

theorem Same.trans (hfg : f.Same g a b) (hgh : g.Same h a b) : f.Same h a b := fun x hx hx' =>
  (hfg x hx hx').trans (hgh x hx hx')

theorem Same.symm (h : f.Same g a b) : g.Same f a b := fun x hx hx' => (h x hx hx').symm

theorem Same.refl (f : Flash) (a b : Nat) : f.Same f a b := fun _ _ _ => rfl

/-! ### Programming -/

@[simp] theorem clear_self (f : Flash) (a : Nat) (b : Byte) : f.clear a b a = f a &&& b := Function.update_self ..

theorem clear_of_ne {x : Nat} (b : Byte) (h : x ≠ a) : f.clear a b x = f x := Function.update_of_ne h ..

theorem program_of_lt {x : Nat} (h : x < a) : f.program a bs x = f x := by
  induction bs generalizing f a with
  | nil => rfl
  | cons b bs ih => rw [program, ih (Nat.lt_succ_of_lt h), clear_of_ne b (Nat.ne_of_lt h)]

theorem program_of_ge {x : Nat} (h : a + bs.length ≤ x) : f.program a bs x = f x := by
  induction bs generalizing f a with
  | nil => rfl
  | cons b bs ih =>
    rw [List.length_cons] at h
    rw [program, ih (by omega), clear_of_ne b (by omega)]

theorem program_get {i : Nat} (hi : i < bs.length) : f.program a bs (a + i) = f (a + i) &&& bs[i] := by
  induction bs generalizing f a i with
  | nil => cases hi
  | cons b bs ih =>
    cases i with
    | zero => rw [program, program_of_lt (by omega)]; simp
    | succ i =>
      have h := ih (f := f.clear a b) (a := a + 1) (i := i) (Nat.lt_of_succ_lt_succ hi)
      rw [program, show a + (i + 1) = a + 1 + i by omega, h, clear_of_ne b (by omega), List.getElem_cons_succ]

theorem same_program {a' b' : Nat} (h : b' ≤ a ∨ a + bs.length ≤ a') : f.Same (f.program a bs) a' b' := by
  intro x hx hx'
  rcases h with h | h
  · rw [program_of_lt (by omega)]
  · rw [program_of_ge (by omega)]

/-- What is programmed over erased bytes is what is there then. -/
theorem holds_program (h : f.Blank a (a + bs.length)) : (f.program a bs).Holds a bs := by
  refine holds_of_get fun i hi => ?_
  rw [program_get hi, h _ (Nat.le_add_right a i) (by omega)]
  exact BitVec.allOnes_and

theorem program_append (f : Flash) (a : Nat) (bs cs : List Byte) :
    f.program a (bs ++ cs) = (f.program a bs).program (a + bs.length) cs := by
  induction bs generalizing f a with
  | nil => rfl
  | cons b bs ih => rw [List.cons_append, program, program, ih, List.length_cons, Nat.add_assoc, Nat.add_comm 1]

/-- Programming ones changes nothing. -/
theorem program_ones (f : Flash) (a n : Nat) : f.program a (List.replicate n 0xFF) = f := by
  induction n generalizing a with
  | zero => rfl
  | succ n ih =>
    have hclear : f.clear a 0xFF = f := by
      refine Flash.ext (funext fun x => ?_)
      by_cases hx : x = a
      · subst hx
        rw [clear_self]
        exact BitVec.and_allOnes
      · exact clear_of_ne _ hx
    rw [List.replicate_succ, program, hclear, ih]

/-- A chip that is passed on the way has the first bytes of the write. -/
theorem mem_passed (h : g ∈ f.passed a bs) : ∃ cs, cs <+: bs ∧ cs ≠ [] ∧ g = f.program a cs := by
  induction bs generalizing f a with
  | nil => cases h
  | cons b bs ih =>
    rcases List.mem_cons.mp h with rfl | h
    · exact ⟨[b], by simp, by simp, rfl⟩
    · obtain ⟨cs, hcs, -, rfl⟩ := ih h
      exact ⟨b :: cs, by simpa using hcs, by simp, rfl⟩

/-! ### Erasing -/

theorem blank_erase (f : Flash) (a n : Nat) : (f.erase a n).Blank a (a + n) := fun _ hx hx' => if_pos ⟨hx, hx'⟩

theorem same_erase {a' b' : Nat} (h : b' ≤ a ∨ a + n ≤ a') : f.Same (f.erase a n) a' b' := fun x hx hx' =>
  (if_neg (by omega)).symm

end Flash

end Backwash.Storage
