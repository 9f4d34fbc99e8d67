import Mathlib.Data.List.Forall2
import Mathlib.Logic.Function.Basic

/-! Parts that share a mark.

Parts take turns in any order. Each has a state and outputs of its own, and all of
them read and write one mark. A part is its own master as long as the mark it reads
is the one it would find if it were alone, which its own outputs tell. Then two runs
that give it the same inputs give it the same outputs, whatever the others do
(`Sharing.run_same`). -/
namespace Backwash.Concurrent

/-- What one turn makes of a part, the mark, and whether it reads the mark at all. -/
structure Sharing (K I M S E : Type) where
  step : K → I → M → S → S × M × Option E
  reads : K → I → S → Prop
  step_same : ∀ {k : K} {i : I} {s : S}, ¬ reads k i s → ∀ m m',
    (step k i m s).1 = (step k i m' s).1 ∧ (step k i m s).2.2 = (step k i m' s).2.2

namespace Sharing
variable {K I M S E : Type}

/-- The parts, the mark, and the outputs of each part, latest first. -/
structure State (K M S E : Type) where
  mark : M
  part : K → S
  past : K → List E

variable [DecidableEq K] (N : Sharing K I M S E)

def turn (k : K) (i : I) (x : State K M S E) : State K M S E where
  mark := (N.step k i x.mark (x.part k)).2.1
  part := Function.update x.part k (N.step k i x.mark (x.part k)).1
  past := Function.update x.past k ((N.step k i x.mark (x.part k)).2.2.toList ++ x.past k)

def run (x : State K M S E) : List (K × I) → State K M S E
  | [] => x
  | (k, i) :: rest => run (N.turn k i x) rest

/-- Wherever part `k` reads the mark it finds its own. -/
def Kept (own : List E → M) (k : K) : State K M S E → List (K × I) → Prop
  | _, [] => True
  | x, (j, i) :: rest =>
    (j = k → N.reads k i (x.part k) → x.mark = own (x.past k)) ∧ Kept own k (N.turn j i x) rest

instance decidableKept [DecidableEq M] [∀ k i s, Decidable (N.reads k i s)] (own : List E → M) (k : K) :
    ∀ x ts, Decidable (N.Kept own k x ts)
  | _, [] => isTrue trivial
  | x, (j, i) :: rest => @instDecidableAnd _ _ _ (decidableKept own k (N.turn j i x) rest)

/-- Two states that part `k` cannot tell apart but by the mark. -/
structure Same (k : K) (x y : State K M S E) : Prop where
  part : x.part k = y.part k
  past : x.past k = y.past k

/-- Two turns of the same part, with the same input if it is `k`. -/
def SameTurn (k : K) (a b : K × I) : Prop := a.1 = b.1 ∧ (a.1 = k → a.2 = b.2)

variable {N} {own : List E → M} {k : K} {x y : State K M S E}

/-- What a turn makes of the part itself. -/
theorem turn_self {i : I} {s : S} {m : M} {e : Option E} (h : N.step k i x.mark (x.part k) = (s, m, e)) :
    (N.turn k i x).part k = s ∧ (N.turn k i x).mark = m ∧ (N.turn k i x).past k = e.toList ++ x.past k := by
  unfold turn
  rw [h]
  exact ⟨Function.update_self .., rfl, Function.update_self ..⟩

theorem run_append (x : State K M S E) (ts us : List (K × I)) : N.run x (ts ++ us) = N.run (N.run x ts) us := by
  induction ts generalizing x with
  | nil => rfl
  | cons t ts ih => exact ih _

/-- A turn of another part leaves it as it is. -/
theorem Same.aside (h : Same k x y) {j : K} (hj : j ≠ k) (i : I) : Same k x (N.turn j i y) :=
  ⟨h.part.trans (Function.update_of_ne hj.symm ..).symm, h.past.trans (Function.update_of_ne hj.symm ..).symm⟩

/-- A turn of another part. -/
theorem Same.other (h : Same k x y) {j : K} (hj : j ≠ k) (i i' : I) : Same k (N.turn j i x) (N.turn j i' y) := by
  refine ⟨?_, ?_⟩
  · simpa [turn, hj.symm] using h.part
  · simpa [turn, hj.symm] using h.past

/-- A turn of the part itself. -/
theorem Same.self (h : Same k x y) {i : I} (hx : N.reads k i (x.part k) → x.mark = own (x.past k))
    (hy : N.reads k i (y.part k) → y.mark = own (y.past k)) : Same k (N.turn k i x) (N.turn k i y) := by
  have hstep : (N.step k i x.mark (x.part k)).1 = (N.step k i y.mark (y.part k)).1 ∧
      (N.step k i x.mark (x.part k)).2.2 = (N.step k i y.mark (y.part k)).2.2 := by
    by_cases hr : N.reads k i (x.part k)
    · rw [hx hr, hy (h.part ▸ hr), h.part, h.past]
      exact ⟨rfl, rfl⟩
    · rw [← h.part]
      exact N.step_same hr _ _
  refine ⟨?_, ?_⟩
  · simpa [turn] using hstep.1
  · simp only [turn, Function.update_self]
    rw [hstep.2, h.past]

/-- Two runs that give part `k` the same inputs, and in which it finds its own mark,
are the same for it. -/
theorem run_same {ts us : List (K × I)} (hturns : List.Forall₂ (SameTurn k) ts us) (h : Same k x y)
    (hx : N.Kept own k x ts) (hy : N.Kept own k y us) : Same k (N.run x ts) (N.run y us) := by
  induction hturns generalizing x y with
  | nil => exact h
  | @cons a b ts us hab _ ih =>
    obtain ⟨j, i⟩ := a
    obtain ⟨j', i'⟩ := b
    obtain ⟨rfl, hinput⟩ : j = j' ∧ (j = k → i = i') := hab
    refine ih ?_ hx.2 hy.2
    by_cases hj : j = k
    · subst hj
      obtain rfl := hinput rfl
      exact h.self (hx.1 rfl) (hy.1 rfl)
    · exact h.other hj i i'

end Sharing

end Backwash.Concurrent
