import Backwash.Concurrent.Outline

/-! What one thread sees.

Where a part of the state belongs to one thread, the others do not matter and the
thread's program can be run over that part alone. A `Sight` says how: which
answers an operation can have in a view where the rule admits it, what it makes of
the view, and what has to hold after every operation. `Run p x Q` is
the outcome of running `p` from view `x` under all answers; `Run.outline` turns it
into an outline whose mark is the view. -/
namespace Backwash.Concurrent

variable {Op T C S I X : Type} {Res : Op → Type}

structure Sight {Op : Type} (Res : Op → Type) (X : Type) where
  can : (o : Op) → X → Res o → Prop
  after : (o : Op) → Res o → X → X
  Safe : X → Prop

namespace Sight
variable (V : Sight Res X) {α β : Type}

def Run : Prog Res α → X → (α → X → Prop) → Prop
  | .ret a, x, Q => Q a x
  | .op o k, x, Q => ∀ r, V.can o x r → V.Safe (V.after o r x) ∧ Run (k r) (V.after o r x) Q

variable {V}

theorem Run.perform {o : Op} {x : X} {Q : Res o → X → Prop}
    (h : ∀ r, V.can o x r → V.Safe (V.after o r x) ∧ Q r (V.after o r x)) :
    V.Run (Prog.perform o) x Q :=
  h

/-- One operation, and the rest of the program. -/
theorem Run.step {o : Op} {f : Res o → Prog Res β} {x : X} {Q : β → X → Prop}
    (h : ∀ r, V.can o x r → V.Safe (V.after o r x) ∧ V.Run (f r) (V.after o r x) Q) :
    V.Run (Prog.perform o >>= f) x Q :=
  h

theorem Run.bind {p : Prog Res α} {f : α → Prog Res β} {x : X} {R : α → X → Prop} {Q : β → X → Prop}
    (hp : V.Run p x R) (hf : ∀ a y, R a y → V.Run (f a) y Q) : V.Run (p >>= f) x Q := by
  induction p generalizing x with
  | ret a => exact hf a x hp
  | op o k ih =>
    intro r hr
    obtain ⟨hsafe, hk⟩ := hp r hr
    exact ⟨hsafe, ih r hk⟩

theorem Run.mono {p : Prog Res α} {x : X} {R Q : α → X → Prop} (hp : V.Run p x R) (h : ∀ a y, R a y → Q a y) :
    V.Run p x Q := by
  induction p generalizing x with
  | ret a => exact h a x hp
  | op o k ih =>
    intro r hr
    obtain ⟨hsafe, hk⟩ := hp r hr
    exact ⟨hsafe, ih r hk⟩

theorem Run.ite {b : Prop} [Decidable b] {p q : Prog Res α} {x : X} {Q : α → X → Prop} (hp : b → V.Run p x Q)
    (hq : ¬ b → V.Run q x Q) : V.Run (if b then p else q) x Q := by
  split
  · exact hp ‹_›
  · exact hq ‹_›

theorem Run.when {b : Prop} [Decidable b] {p : Prog Res Unit} {x : X} {Q : Unit → X → Prop} (hp : b → V.Run p x Q)
    (hq : ¬ b → Q () x) : V.Run (Prog.when b p) x Q :=
  Run.ite hp hq

/-- A run from a safe view ends in a safe one. -/
theorem Run.safe {p : Prog Res α} {x : X} {Q : α → X → Prop} (hx : V.Safe x) (h : V.Run p x Q) :
    V.Run p x fun a y => V.Safe y ∧ Q a y := by
  induction p generalizing x with
  | ret a => exact ⟨hx, h⟩
  | op o k ih =>
    intro r hr
    obtain ⟨hsafe, hk⟩ := h r hr
    exact ⟨hsafe, ih r hsafe hk⟩

/-- What every operation of a program keeps, the program keeps. -/
theorem Run.all {D : X → Prop} {p : Prog Res α}
    (hp : p.All fun o => ∀ x r, D x → V.can o x r → V.Safe (V.after o r x) ∧ D (V.after o r x)) {x : X}
    (hx : D x) : V.Run p x fun _ y => D y := by
  induction p generalizing x with
  | ret a => exact hx
  | op o k ih =>
    intro r hr
    obtain ⟨hsafe, hd⟩ := hp.1 x r hx hr
    exact ⟨hsafe, ih r (hp.2 r) hd⟩

/-- Programs that keep a property of the view. -/
theorem Run.compositional (D : X → Prop) :
    Prog.Compositional fun (p : Prog Res _) => ∀ x, D x → V.Run p x fun _ y => D y :=
  ⟨fun _ _ hx => hx, fun hp hf x hx => (hp x hx).bind fun a y hy => hf a y hy⟩

variable [DecidableEq T] {M : System Res T C S I} {G : Type} {P : Protocol M G}

/-- A run over the view is an outline, if each operation of the thread acts on the
view as the sight says. -/
theorem Run.outline {m : X → G} {K : Op → Prop} {t : T} {c : C}
    (hstep : ∀ (o : Op) (x : X) (cfg : Config Res T C S I) (gs : T → G) (i : I), K o → cfg.call t = some c →
      cfg.head t = some o → gs t = m x → P.Holds gs cfg → P.Rule cfg (.step t i) →
      V.can o x (M.exec t o i cfg.state).2 ∧
      (V.Safe (V.after o (M.exec t o i cfg.state).2 x) →
        P.At t (some c) (m (V.after o (M.exec t o i cfg.state).2 x)) ∧
        P.Inv (Function.update gs t (m (V.after o (M.exec t o i cfg.state).2 x)))
          (M.exec t o i cfg.state).1 (.did t o i :: cfg.trace)))
    {p : Prog Res α} (hK : p.All K) {x : X} {Q : α → X → Prop} (hp : V.Run p x Q) :
    P.Outline t c p (m x) fun a g => ∃ y, g = m y ∧ Q a y := by
  induction p generalizing x with
  | ret a => exact ⟨x, rfl, hp⟩
  | op o k ih =>
    intro cfg gs i hcall hhead hg hold hr
    obtain ⟨hcan, hinv⟩ := hstep o x cfg gs i hK.1 hcall hhead hg hold hr
    obtain ⟨hsafe, hk⟩ := hp _ hcan
    obtain ⟨hat, hinv'⟩ := hinv hsafe
    exact ⟨_, hat, hinv', ih _ (hK.2 _) hk⟩

end Sight

end Backwash.Concurrent
