import Backwash.Concurrent.System

/-! Proof outlines for interleaved threads.

An invariant of a system of threads usually has to know roughly where each
thread is: that this one has claimed something it has not yet handed on, that
another one is between a test and the write it allows. A `Protocol` says so with
*marks*: each thread carries a mark, the invariant relates the marks to the
state and the past, and `At` says which marks a thread may carry in which call.
Marks exist in the proof only.

`Outline t c p g Q` is the proof that thread `t`, carrying `g` in call `c`, can
run `p`: before each operation the invariant may be assumed with arbitrary marks
of the other threads, after it a new mark of `t` must restore the invariant, and
the program ends with a value and a mark that satisfy `Q`. Interference needs no
separate check, since the invariant is assumed afresh at each operation. If every call
has an outline, the invariant holds in every configuration of every admitted run
(`Protocol.run_good`). -/
namespace Backwash.Concurrent

variable {Op T C S I : Type} {Res : Op → Type} [DecidableEq T]

/-- A rule on actions, an invariant over the threads' marks, and where a thread
may carry which mark. -/
structure Protocol (M : System Res T C S I) (G : Type) where
  Rule : Config Res T C S I → Action T C I → Prop
  Inv : (T → G) → S → List (Event Op T C I) → Prop
  At : T → Option C → G → Prop

namespace Protocol
variable {M : System Res T C S I} {G : Type} (P : Protocol M G)

/-- The marks fit the configuration. -/
def Holds (gs : T → G) (cfg : Config Res T C S I) : Prop :=
  P.Inv gs cfg.state cfg.trace ∧ ∀ t, P.At t (cfg.call t) (gs t)

def Outline (t : T) (c : C) {α : Type} : Prog Res α → G → (α → G → Prop) → Prop
  | .ret a, g, Q => Q a g
  | .op o k, g, Q => ∀ (cfg : Config Res T C S I) (gs : T → G) (i : I),
      cfg.call t = some c → cfg.head t = some o → gs t = g → P.Holds gs cfg → P.Rule cfg (.step t i) →
      ∃ g', P.At t (some c) g' ∧
        P.Inv (Function.update gs t g') (M.exec t o i cfg.state).1 (.did t o i :: cfg.trace) ∧
        Outline t c (k (M.exec t o i cfg.state).2) g' Q

/-- What beginning a call owes. -/
def Begins (t : T) (c : C) : Prop :=
  ∀ (cfg : Config Res T C S I) (gs : T → G), cfg.task t = none → M.ready t c cfg.state = true →
    P.Holds gs cfg → P.Rule cfg (.start t c) →
    ∃ g', P.At t (some c) g' ∧ P.Inv (Function.update gs t g') (M.enter c cfg.state) (.began t c :: cfg.trace) ∧
      P.Outline t c (M.body c) g' (fun _ g => P.At t none g)

/-- The marks fit, and every busy thread has an outline for what it has left. -/
def Good (gs : T → G) (cfg : Config Res T C S I) : Prop :=
  P.Inv gs cfg.state cfg.trace ∧ ∀ t, match cfg.task t with
    | none => P.At t none (gs t)
    | some (c, p) => P.At t (some c) (gs t) ∧ P.Outline t c p (gs t) (fun _ g => P.At t none g)

variable {P}

theorem Good.holds {gs : T → G} {cfg : Config Res T C S I} (h : P.Good gs cfg) : P.Holds gs cfg := by
  refine ⟨h.1, fun t => ?_⟩
  have ht := h.2 t
  unfold Config.call
  cases htask : cfg.task t with
  | none => rw [htask] at ht; exact ht
  | some x => rw [htask] at ht; exact ht.1

/-- An idle thread carries a mark of an idle thread. -/
theorem Good.idle {gs : T → G} {cfg : Config Res T C S I} (h : P.Good gs cfg) {t : T} (ht : cfg.task t = none) :
    P.At t none (gs t) := by
  have := h.2 t
  rwa [ht] at this

theorem Good.boot {gs : T → G} {s : S} (hi : P.Inv gs s []) (ha : ∀ t, P.At t none (gs t)) :
    P.Good gs (.boot s) :=
  ⟨hi, ha⟩

/-- A thread that goes on with `p` under a good mark keeps the configuration good. -/
theorem Good.advance {gs : T → G} {cfg : Config Res T C S I} (h : P.Good gs cfg) {t : T} {c : C}
    {g' : G} {p : Prog Res Unit} {s' : S} {trace' : List (Event Op T C I)} (hat : P.At t (some c) g')
    (hinv : P.Inv (Function.update gs t g') s' trace')
    (hout : P.Outline t c p g' (fun _ g => P.At t none g)) :
    P.Good (Function.update gs t g') ⟨s', Function.update cfg.task t (settle c p), trace'⟩ := by
  refine ⟨hinv, fun u => ?_⟩
  by_cases hu : u = t
  · subst hu
    simp only [Function.update_self]
    cases p with
    | ret a => exact hout
    | op o k => exact ⟨hat, hout⟩
  · simp only [Function.update_of_ne hu]
    exact h.2 u

theorem Good.next {gs : T → G} {cfg : Config Res T C S I} (h : P.Good gs cfg) {a : Action T C I}
    (hbegin : ∀ t c, P.Begins t c) (hr : P.Rule cfg a) : ∃ gs', P.Good gs' (M.next cfg a) := by
  rcases System.next_cases (M := M) cfg a with hsame | ⟨t, c, rfl, ht, hready⟩ | ⟨t, i, c, o, k, rfl, ht⟩
  · exact ⟨gs, by rw [hsame]; exact h⟩
  · obtain ⟨g', hat, hinv, hout⟩ := hbegin t c cfg gs ht hready h.holds hr
    rw [System.next_start ht hready]
    exact ⟨_, h.advance hat hinv hout⟩
  · have hout := h.2 t
    rw [ht] at hout
    have hcall : cfg.call t = some c := by simp [Config.call, ht]
    have hhead : cfg.head t = some o := by simp [Config.head, ht, Prog.head]
    obtain ⟨g', hat, hinv, hnext⟩ := hout.2 cfg gs i hcall hhead rfl h.holds hr
    rw [System.next_step ht]
    exact ⟨_, h.advance hat hinv hnext⟩

/-- Every configuration of an admitted run is good. -/
theorem run_good (hbegin : ∀ t c, P.Begins t c) {gs : T → G} {cfg : Config Res T C S I}
    (h : P.Good gs cfg) {as : List (Action T C I)} (ha : M.Admits P.Rule cfg as) :
    ∃ gs', P.Good gs' (M.run cfg as) :=
  System.run_invariant (fun cfg => ∃ gs, P.Good gs cfg)
    (fun _ _ ⟨_, hg⟩ hr => hg.next hbegin hr) ⟨gs, h⟩ ha

/-! ### Building outlines -/

variable {t : T} {c : C} {α β : Type} {g : G}

theorem Outline.bind {p : Prog Res α} {f : α → Prog Res β} {R : α → G → Prop} {Q : β → G → Prop}
    (hp : P.Outline t c p g R) (hf : ∀ a g', R a g' → P.Outline t c (f a) g' Q) :
    P.Outline t c (p >>= f) g Q := by
  induction p generalizing g with
  | ret a => exact hf a g hp
  | op o k ih =>
    intro cfg gs i hcall hhead hg hold hr
    obtain ⟨g', hat, hinv, hk⟩ := hp cfg gs i hcall hhead hg hold hr
    exact ⟨g', hat, hinv, ih _ hk⟩

/-- Two programs in a row, where the first always ends with mark `m`. -/
theorem Outline.seq {p : Prog Res α} {f : α → Prog Res β} {m : G} {Q : β → G → Prop}
    (hp : P.Outline t c p g fun _ x => x = m) (hf : ∀ a, P.Outline t c (f a) m Q) :
    P.Outline t c (p >>= f) g Q :=
  hp.bind fun a _ hx => hx ▸ hf a

/-- Programs that run under one mark. -/
theorem Outline.compositional : Prog.Compositional fun (p : Prog Res _) => P.Outline t c p g fun _ x => x = g :=
  ⟨fun _ => rfl, Outline.seq⟩

theorem Outline.mono {p : Prog Res α} {R Q : α → G → Prop} (hp : P.Outline t c p g R)
    (h : ∀ a g', R a g' → Q a g') : P.Outline t c p g Q := by
  induction p generalizing g with
  | ret a => exact h a g hp
  | op o k ih =>
    intro cfg gs i hcall hhead hg hold hr
    obtain ⟨g', hat, hinv, hk⟩ := hp cfg gs i hcall hhead hg hold hr
    exact ⟨g', hat, hinv, ih _ hk⟩

variable (P) in
/-- The operation leaves the invariant true without a new mark. -/
def Keeps (t : T) (c : C) (g : G) (o : Op) : Prop :=
  ∀ (cfg : Config Res T C S I) (gs : T → G) (i : I), cfg.call t = some c → cfg.head t = some o →
    gs t = g → P.Holds gs cfg → P.Rule cfg (.step t i) →
    P.Inv gs (M.exec t o i cfg.state).1 (.did t o i :: cfg.trace)

/-- A stretch of operations that all leave the invariant true. -/
theorem Outline.keep {p : Prog Res α} {Q : α → G → Prop} (hat : P.At t (some c) g)
    (hp : p.All (P.Keeps t c g)) (hq : ∀ a, Q a g) : P.Outline t c p g Q := by
  induction p with
  | ret a => exact hq a
  | op o k ih =>
    intro cfg gs i hcall hhead hg hold hr
    refine ⟨g, hat, ?_, ih _ (hp.2 _)⟩
    rw [← hg, Function.update_eq_self]
    exact hp.1 cfg gs i hcall hhead hg hold hr

/-- One operation, with a mark for each answer. -/
theorem Outline.perform {o : Op} {Q : Res o → G → Prop}
    (h : ∀ (cfg : Config Res T C S I) (gs : T → G) (i : I), cfg.call t = some c → cfg.head t = some o →
      gs t = g → P.Holds gs cfg → P.Rule cfg (.step t i) →
      ∃ g', P.At t (some c) g' ∧
        P.Inv (Function.update gs t g') (M.exec t o i cfg.state).1 (.did t o i :: cfg.trace) ∧
        Q (M.exec t o i cfg.state).2 g') :
    P.Outline t c (Prog.perform o) g Q :=
  h

/-- One operation that takes the thread from mark `g` to mark `m`. -/
theorem Outline.move {o : Op} {m : G} {Q : Res o → G → Prop} (hat : P.At t (some c) m)
    (h : ∀ (cfg : Config Res T C S I) (gs : T → G) (i : I), cfg.call t = some c → cfg.head t = some o →
      gs t = g → P.Holds gs cfg → P.Rule cfg (.step t i) →
      P.Inv (Function.update gs t m) (M.exec t o i cfg.state).1 (.did t o i :: cfg.trace))
    (hq : ∀ r, Q r m) : P.Outline t c (Prog.perform o) g Q :=
  fun cfg gs i hcall hhead hg hold hr => ⟨m, hat, h cfg gs i hcall hhead hg hold hr, hq _⟩

theorem Outline.ite {b : Prop} [Decidable b] {p q : Prog Res α} {Q : α → G → Prop}
    (hp : b → P.Outline t c p g Q) (hq : ¬ b → P.Outline t c q g Q) :
    P.Outline t c (if b then p else q) g Q := by
  split
  · exact hp ‹_›
  · exact hq ‹_›

theorem Outline.when {b : Prop} [Decidable b] {p : Prog Res Unit} {Q : Unit → G → Prop}
    (hp : b → P.Outline t c p g Q) (hq : ¬ b → Q () g) : P.Outline t c (Prog.when b p) g Q :=
  Outline.ite hp hq

end Protocol

end Backwash.Concurrent
