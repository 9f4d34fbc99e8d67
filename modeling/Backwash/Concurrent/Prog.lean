import Mathlib.Logic.Function.Basic

/-! Programs of atomic operations.

A sequential function of a preemptible system is a tree: it performs one
operation, which the rest of the system may delay but not split, and goes on
with what the operation answered. `Prog Res α` is that tree over operations `Op`
with answers `Res`, and nothing is said here about what an operation does. The
residual of a program after some of its operations is again a program, so a
thread that was stopped half way is described by the program it still has to
run. -/
namespace Backwash.Concurrent

/-- A program over the operations `Op`: it ends with a value, or performs an
operation and continues with the answer. -/
inductive Prog {Op : Type} (Res : Op → Type) (α : Type) where
  | ret : α → Prog Res α
  | op : (o : Op) → (Res o → Prog Res α) → Prog Res α

namespace Prog
variable {Op : Type} {Res : Op → Type} {α β : Type}

def bind : Prog Res α → (α → Prog Res β) → Prog Res β
  | .ret a, f => f a
  | .op o k, f => .op o fun r => (k r).bind f

instance : Monad (Prog Res) where
  pure := .ret
  bind := .bind

/-- One operation, as a program that ends with its answer. -/
def perform (o : Op) : Prog Res (Res o) := .op o .ret

/-- A statement under a condition, with nothing on the other side. -/
def when (c : Prop) [Decidable c] (p : Prog Res Unit) : Prog Res Unit := if c then p else .ret ()

/-- The operation a program begins with. -/
def head : Prog Res α → Option Op
  | .ret _ => none
  | .op o _ => some o

@[simp] theorem pure_eq (a : α) : (pure a : Prog Res α) = .ret a := rfl
@[simp] theorem bind_eq (p : Prog Res α) (f : α → Prog Res β) : p >>= f = p.bind f := rfl
@[simp] theorem ret_bind (a : α) (f : α → Prog Res β) : (ret a : Prog Res α).bind f = f a := rfl
@[simp] theorem op_bind (o : Op) (k : Res o → Prog Res α) (f : α → Prog Res β) :
    (op o k).bind f = op o fun r => (k r).bind f := rfl

theorem bind_assoc {γ : Type} (p : Prog Res α) (f : α → Prog Res β) (g : β → Prog Res γ) :
    (p >>= f) >>= g = p >>= fun a => f a >>= g := by
  induction p with
  | ret a => rfl
  | op o k ih => exact congrArg (op o) (funext ih)

/-! ### Programs that keep to some operations -/

/-- Every operation the program can come to, whatever the answers, satisfies `P`. -/
def All (P : Op → Prop) : Prog Res α → Prop
  | .ret _ => True
  | .op o k => P o ∧ ∀ r, (k r).All P

variable {P Q : Op → Prop}

theorem All.ret (a : α) : (ret a : Prog Res α).All P := trivial

theorem All.pure (a : α) : (Pure.pure a : Prog Res α).All P := trivial

theorem All.perform {o : Op} (h : P o) : (perform o : Prog Res (Res o)).All P := ⟨h, fun _ => trivial⟩

theorem All.bind {p : Prog Res α} {f : α → Prog Res β} (hp : p.All P) (hf : ∀ a, (f a).All P) :
    (p >>= f).All P := by
  induction p with
  | ret a => exact hf a
  | op o k ih => exact ⟨hp.1, fun r => ih r (hp.2 r)⟩

theorem All.of_bind {p : Prog Res α} {f : α → Prog Res β} (h : (p >>= f).All P) : p.All P := by
  induction p with
  | ret a => trivial
  | op o k ih => exact ⟨h.1, fun r => ih r (h.2 r)⟩

theorem All.ite {c : Prop} [Decidable c] {p q : Prog Res α} (hp : p.All P) (hq : q.All P) :
    (if c then p else q).All P := by
  split
  · exact hp
  · exact hq

theorem All.when {c : Prop} [Decidable c] {p : Prog Res Unit} (hp : p.All P) : (when c p).All P :=
  All.ite hp (All.ret ())

theorem All.of_forall (h : ∀ o, P o) (p : Prog Res α) : p.All P := by
  induction p with
  | ret a => trivial
  | op o k ih => exact ⟨h o, ih⟩

theorem All.mono (h : ∀ o, P o → Q o) {p : Prog Res α} (hp : p.All P) : p.All Q := by
  induction p with
  | ret a => trivial
  | op o k ih => exact ⟨h o hp.1, fun r => ih r (hp.2 r)⟩

/-! ### Properties of the parts

A property that passes from the parts of a program to the whole holds of a
program as soon as it holds of its operations, and of the programs it is given. -/

/-- The property holds of a sequence when it holds of its parts. -/
structure Compositional (P : ∀ {α : Type}, Prog Res α → Prop) : Prop where
  pure : ∀ {α : Type} (a : α), P (Pure.pure a)
  bind : ∀ {α β : Type} {p : Prog Res α} {f : α → Prog Res β}, P p → (∀ a, P (f a)) → P (p >>= f)

namespace Compositional
variable {P : ∀ {α : Type}, Prog Res α → Prop}

theorem when (hP : Compositional P) {c : Prop} [Decidable c] {p : Prog Res Unit} (hp : P p) : P (when c p) := by
  unfold Prog.when
  split
  · exact hp
  · exact hP.pure ()

theorem foldr (hP : Compositional P) {ι : Type} {f : ι → Prog Res Unit} (hf : ∀ x, P (f x)) (xs : List ι) :
    P (xs.foldr (fun x rest => do f x; rest) (Pure.pure ())) := by
  induction xs with
  | nil => exact hP.pure ()
  | cons x rest ih => exact hP.bind (hf x) fun _ => ih

end Compositional

theorem All.compositional (P : Op → Prop) : Compositional fun (p : Prog Res _) => p.All P :=
  ⟨All.pure, All.bind⟩

/-! ### What can be left of a program -/

/-- Whatever part of the program is left to do, the program itself included, satisfies `R`. -/
def Always (R : Prog Res α → Prop) : Prog Res α → Prop
  | .ret a => R (.ret a)
  | .op o k => R (.op o k) ∧ ∀ r, (k r).Always R

variable {R : Prog Res β → Prop}

theorem Always.of_forall (h : ∀ p, R p) (p : Prog Res β) : p.Always R := by
  induction p with
  | ret a => exact h _
  | op o k ih => exact ⟨h _, ih⟩

theorem Always.of_all {p : Prog Res β} (hp : p.All P) (hret : ∀ b, R (.ret b)) (hop : ∀ o k, P o → R (.op o k)) :
    p.Always R := by
  induction p with
  | ret a => exact hret a
  | op o k ih => exact ⟨hop o k hp.1, fun r => ih r (hp.2 r)⟩

/-- A program whose every part begins with an operation that satisfies `P`. -/
theorem Always.all {p : Prog Res β} (h : p.Always fun q => ∀ o, q.head = some o → P o) : p.All P := by
  induction p with
  | ret a => trivial
  | op o k ih => exact ⟨h.1 o rfl, fun r => ih r (h.2 r)⟩

theorem Always.bind {p : Prog Res α} {f : α → Prog Res β} (hp : p.All P) (hop : ∀ o k, P o → R (.op o k))
    (hf : ∀ a, (f a).Always R) : (p >>= f).Always R := by
  induction p with
  | ret a => exact hf a
  | op o k ih => exact ⟨hop o _ hp.1, fun r => ih r (hp.2 r)⟩

/-! ### What a program can come to -/

/-- Under answers that `can` admits the program comes to the operation. -/
def ComesTo (can : (o : Op) → Res o → Prop) (o : Op) : Prog Res α → Prop
  | .ret _ => False
  | .op o' k => o' = o ∨ ∃ r, can o' r ∧ (k r).ComesTo can o

variable {can : (o : Op) → Res o → Prop} {o : Op}

theorem ComesTo.bind_cases {p : Prog Res α} {f : α → Prog Res β} (h : (p >>= f).ComesTo can o) :
    p.ComesTo can o ∨ ∃ a, (f a).ComesTo can o := by
  induction p with
  | ret a => exact .inr ⟨a, h⟩
  | op o' k ih =>
    rcases h with h | ⟨r, hr, h⟩
    · exact .inl (.inl h)
    · exact (ih r h).imp_left fun hk => .inr ⟨r, hr, hk⟩

theorem ComesTo.of_all {p : Prog Res α} (hp : p.All P) (h : p.ComesTo can o) : P o := by
  induction p with
  | ret a => exact h.elim
  | op o' k ih =>
    rcases h with rfl | ⟨r, -, h⟩
    · exact hp.1
    · exact ih r (hp.2 r) h

/-! ### Programs that are sure to come to an operation -/

/-- Whatever the answers, the program performs an operation that satisfies `P`
before it ends. -/
def Must (P : Op → Prop) : Prog Res α → Prop
  | .ret _ => False
  | .op o k => P o ∨ ∀ r, (k r).Must P

theorem Must.perform {o : Op} (h : P o) : (perform o : Prog Res (Res o)).Must P := .inl h

theorem Must.first {p : Prog Res α} (f : α → Prog Res β) (hp : p.Must P) : (p >>= f).Must P := by
  induction p with
  | ret a => exact hp.elim
  | op o k ih =>
    rcases hp with h | h
    · exact .inl h
    · exact .inr fun r => ih r (h r)

theorem Must.later (p : Prog Res α) {f : α → Prog Res β} (hf : ∀ a, (f a).Must P) : (p >>= f).Must P := by
  induction p with
  | ret a => exact hf a
  | op o k ih => exact .inr fun r => ih r

end Prog

end Backwash.Concurrent
