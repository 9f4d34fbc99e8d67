import Backwash.Storage.Runs

/-! Machines that answer calls.

A machine says what calls mean: which ones it admits in a state, what it answers and in what
state it is left. Programs, one for each call, follow the machine through a relation between
its states and theirs if each of them does, call by call. Then any sequence of calls is answered
as the machine answers it. -/
namespace Backwash.Storage

variable {δ σ φ Call Answer : Type}

structure Machine (δ Call Answer : Type) where
  admits : δ → Call → Prop
  answer : δ → Call → Answer
  next : δ → Call → δ

namespace Machine

/-- Each call is admitted where it comes. -/
def Admits (M : Machine δ Call Answer) : δ → List Call → Prop
  | _, [] => True
  | d, call :: calls => M.admits d call ∧ M.Admits (M.next d call) calls

def answers (M : Machine δ Call Answer) : δ → List Call → List Answer
  | _, [] => []
  | d, call :: calls => M.answer d call :: M.answers (M.next d call) calls

def after (M : Machine δ Call Answer) (d : δ) (calls : List Call) : δ := calls.foldl M.next d

variable {M : Machine δ Call Answer} {past : σ → List φ} {C : φ → Prop} {p : Call → StateT σ Option Answer} {R : δ → σ → Prop}
  {d : δ} {s : σ} {calls : List Call}

/-- What a program owes the machine for each call. -/
def Follows (M : Machine δ Call Answer) (past : σ → List φ) (C : φ → Prop) (p : Call → StateT σ Option Answer)
    (R : δ → σ → Prop) : Prop :=
  ∀ d s call, R d s → M.admits d call → Runs past C (p call) s fun answer s' => answer = M.answer d call ∧ R (M.next d call) s'

/-- Any sequence of calls is answered as the machine answers it. -/
theorem Follows.run (hf : M.Follows past C p R) (hr : R d s) (hadmits : M.Admits d calls) :
    Runs past C (calls.mapM p) s fun answers s' => answers = M.answers d calls ∧ R (M.after d calls) s' := by
  induction calls generalizing d s with
  | nil => exact Runs.pure ⟨rfl, hr⟩
  | cons call calls ih =>
    rw [List.mapM_cons]
    refine Runs.andThen (hf d s call hr hadmits.1) ?_
    rintro answer s₁ ⟨rfl, hr₁⟩
    refine Runs.andThen (ih hr₁ hadmits.2) ?_
    rintro answers s₂ ⟨rfl, hr₂⟩
    exact Runs.pure ⟨rfl, hr₂⟩

end Machine

end Backwash.Storage
