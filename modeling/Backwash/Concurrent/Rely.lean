import Backwash.Concurrent.Outline

/-! A thread among others that interfere.

Where other threads change what a thread works on, but only in known ways, its
program can still be run over its view: before every operation the view may have
drifted. A `Rely` says how far, which operations are fine, and what the thread's own
operations make of the view. `Run p x Q` runs `p` from view `x` under all drifts and
all answers; what is proved between two operations has to stand the drift
(`Stable`). A `Guest` ties the view to a system: if the body of each of the thread's
calls runs from rest to rest, every operation it performs in an admitted run is fine
(`Guest.run_fine`). -/
namespace Backwash.Concurrent

variable {Op T C S I X : Type} {Res : Op → Type}

structure Rely {Op : Type} (Res : Op → Type) (X : Type) where
  drift : X → X → Prop
  drift_refl : ∀ x, drift x x
  drift_trans : ∀ {x y z}, drift x y → drift y z → drift x z
  /-- What the thread may assume of a view in which it performs an operation. -/
  allowed : Op → X → Prop
  fine : Op → Prop
  can : (o : Op) → X → Res o → Prop
  after : (o : Op) → Res o → X → X

namespace Rely
variable (V : Rely Res X) {α β : Type}

def Run : Prog Res α → X → (α → X → Prop) → Prop
  | .ret a, x, Q => Q a x
  | .op o k, x, Q => ∀ y, V.drift x y → V.allowed o y → V.fine o ∧ ∀ r, V.can o y r → Run (k r) (V.after o r y) Q

/-- What the other threads leave true. -/
def Stable (D : X → Prop) : Prop := ∀ ⦃x y : X⦄, V.drift x y → D x → D y

variable {V}

theorem Stable.and {D E : X → Prop} (hD : V.Stable D) (hE : V.Stable E) : V.Stable fun x => D x ∧ E x :=
  fun _ _ h hx => ⟨hD h hx.1, hE h hx.2⟩

theorem Stable.or {D E : X → Prop} (hD : V.Stable D) (hE : V.Stable E) : V.Stable fun x => D x ∨ E x :=
  fun _ _ h hx => hx.imp (hD h) (hE h)

/-- One operation, from any view that satisfies a stable property. -/
theorem Run.perform {D : X → Prop} (hD : V.Stable D) {o : Op} {x : X} {Q : Res o → X → Prop} (hx : D x) (ho : V.fine o)
    (h : ∀ y r, D y → V.allowed o y → V.can o y r → Q r (V.after o r y)) : V.Run (Prog.perform o) x Q :=
  fun y hy hallow => ⟨ho, fun r hr => h y r (hD hy hx) hallow hr⟩

theorem Run.bind {p : Prog Res α} {f : α → Prog Res β} {x : X} {R : α → X → Prop} {Q : β → X → Prop}
    (hp : V.Run p x R) (hf : ∀ a y, R a y → V.Run (f a) y Q) : V.Run (p >>= f) x Q := by
  induction p generalizing x with
  | ret a => exact hf a x hp
  | op o k ih =>
    intro y hy hallow
    obtain ⟨hfine, hk⟩ := hp y hy hallow
    exact ⟨hfine, fun r hr => ih r (hk r hr)⟩

theorem Run.mono {p : Prog Res α} {x : X} {R Q : α → X → Prop} (hp : V.Run p x R) (h : ∀ a y, R a y → Q a y) :
    V.Run p x Q := by
  induction p generalizing x with
  | ret a => exact h a x hp
  | op o k ih =>
    intro y hy hallow
    obtain ⟨hfine, hk⟩ := hp y hy hallow
    exact ⟨hfine, fun r hr => ih r (hk r hr)⟩

theorem Run.ite {b : Prop} [Decidable b] {p q : Prog Res α} {x : X} {Q : α → X → Prop} (hp : b → V.Run p x Q)
    (hq : ¬ b → V.Run q x Q) : V.Run (if b then p else q) x Q := by
  split
  · exact hp ‹_›
  · exact hq ‹_›

theorem Run.when {b : Prop} [Decidable b] {p : Prog Res Unit} {x : X} {Q : Unit → X → Prop} (hp : b → V.Run p x Q)
    (hq : ¬ b → Q () x) : V.Run (Prog.when b p) x Q :=
  Run.ite hp hq

/-- What every operation of a program keeps, the program keeps. -/
theorem Run.all {D : X → Prop} (hD : V.Stable D) {p : Prog Res α}
    (hp : p.All fun o => V.fine o ∧ ∀ x r, D x → V.allowed o x → V.can o x r → D (V.after o r x)) {x : X} (hx : D x) :
    V.Run p x fun _ y => D y := by
  induction p generalizing x with
  | ret a => exact hx
  | op o k ih =>
    intro y hy hallow
    exact ⟨hp.1.1, fun r hr => ih r (hp.2 r) (hp.1.2 y r (hD hy hx) hallow hr)⟩

end Rely

/-! ### In a system -/

structure Guest [DecidableEq T] (M : System Res T C S I) (X : Type) extends Rely Res X where
  thread : T
  may : T → Op → Prop
  Rule : Config Res T C S I → Action T C I → Prop
  view : S → X
  Rest : X → Prop
  body_may : ∀ {t : T} {c : C} {s : S}, M.ready t c s = true → (M.body c).All (may t)
  own : ∀ {o : Op} {i : I} {s : S}, may thread o → can o (view s) (M.exec thread o i s).2 ∧
    view (M.exec thread o i s).1 = after o (M.exec thread o i s).2 (view s)
  rule : ∀ {cfg : Config Res T C S I} {o : Op} {i : I}, cfg.head thread = some o → Rule cfg (.step thread i) →
    allowed o (view cfg.state)
  other : ∀ {t : T} {o : Op} {i : I} {s : S}, t ≠ thread → may t o → drift (view s) (view (M.exec t o i s).1)
  enter : ∀ (c : C) (s : S), drift (view s) (view (M.enter c s))

namespace Guest
variable [DecidableEq T] {M : System Res T C S I} (N : Guest M X)

/-- The thread's operations so far are fine, and the view has drifted from the mark it carries. -/
def protocol : Protocol M X where
  Rule := N.Rule
  Inv := fun gs s tr => N.drift (gs N.thread) (N.view s) ∧ ∀ o i, .did N.thread o i ∈ tr → N.fine o
  At := fun t c x => t = N.thread → c = none → N.Rest x

variable {N}

theorem other_outline {t : T} {c : C} (ht : t ≠ N.thread) {p : Prog Res Unit} (hp : p.All (N.may t)) (g : X) :
    N.protocol.Outline t c p g fun _ _ => True := by
  refine Protocol.Outline.keep (fun e => absurd e ht) (hp.mono fun o ho cfg gs i _ _ _ hold _ => ?_) fun _ => trivial
  refine ⟨N.drift_trans hold.1.1 (N.other ht ho), fun o' i' hmem => ?_⟩
  rcases List.mem_cons.mp hmem with e | hmem
  · cases e
    exact absurd rfl ht
  · exact hold.1.2 o' i' hmem

theorem own_outline {c : C} {p : Prog Res Unit} {x : X} {Q : Unit → X → Prop} (hmay : p.All (N.may N.thread))
    (hp : N.Run p x Q) : N.protocol.Outline N.thread c p x Q := by
  induction p generalizing x with
  | ret a => exact hp
  | op o k ih =>
    intro cfg gs i _ hhead hg hold hr
    obtain ⟨hdrift, hpast⟩ : N.drift (gs N.thread) (N.view cfg.state) ∧ _ := hold.1
    rw [hg] at hdrift
    obtain ⟨hcan, hafter⟩ := N.own (i := i) (s := cfg.state) hmay.1
    obtain ⟨hfine, hk⟩ := hp _ hdrift (N.rule hhead hr)
    refine ⟨_, fun _ e => (by cases e), ⟨?_, fun o' i' hmem => ?_⟩, ih _ (hmay.2 _) (hk _ hcan)⟩
    · rw [Function.update_self, ← hafter]
      exact N.drift_refl _
    · rcases List.mem_cons.mp hmem with e | hmem
      · cases e
        exact hfine
      · exact hpast o' i' hmem

theorem begins_protocol (hbody : ∀ c s x, M.ready N.thread c s = true → N.Rest x → N.Run (M.body c) x fun _ y => N.Rest y)
    (t : T) (c : C) : N.protocol.Begins t c := by
  intro cfg gs hnone hready hold hr
  obtain ⟨hdrift, hpast⟩ : N.drift (gs N.thread) (N.view cfg.state) ∧ _ := hold.1
  have hpast' : ∀ o i, .did N.thread o i ∈ .began t c :: cfg.trace → N.fine o := fun o i hmem => by
    rcases List.mem_cons.mp hmem with e | hmem
    · cases e
    · exact hpast o i hmem
  have henter := N.drift_trans hdrift (N.enter c cfg.state)
  by_cases ht : t = N.thread
  · subst ht
    have hrest : N.Rest (gs N.thread) := hold.2 N.thread rfl (by simp [Config.call, hnone])
    refine ⟨gs N.thread, fun _ e => (by cases e), ⟨?_, hpast'⟩, ?_⟩
    · rw [Function.update_self]
      exact henter
    · exact (own_outline (N.body_may hready) (hbody c _ _ hready hrest)).mono fun _ _ h _ _ => h
  · refine ⟨gs t, fun e => absurd e ht, ⟨?_, hpast'⟩,
      (other_outline ht (N.body_may hready) _).mono fun _ _ _ e => absurd e ht⟩
    rw [Function.update_eq_self]
    exact henter

/-- Every operation that the thread performs in an admitted run is fine. -/
theorem run_fine (hbody : ∀ c s x, M.ready N.thread c s = true → N.Rest x → N.Run (M.body c) x fun _ y => N.Rest y)
    {s : S} (hrest : N.Rest (N.view s)) {as : List (Action T C I)} (ha : M.Admits N.Rule (.boot s) as) {o : Op} {i : I}
    (hdid : .did N.thread o i ∈ (M.run (.boot s) as).trace) : N.fine o := by
  have hstart : N.protocol.Good (fun _ => N.view s) (.boot s) :=
    Protocol.Good.boot ⟨N.drift_refl _, fun _ _ h => absurd h List.not_mem_nil⟩ fun _ _ _ => hrest
  obtain ⟨gs, hgood⟩ := Protocol.run_good (begins_protocol hbody) hstart ha
  exact hgood.1.2 o i hdid

end Guest

end Backwash.Concurrent
